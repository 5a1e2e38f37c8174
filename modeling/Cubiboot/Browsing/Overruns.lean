import Cubiboot.Browsing.Strings
import Cubiboot.Foundations.Runs

/-!
# Browsing, with its arrays

The menu and the worker over a card: what is listed, checked and warmed, which
directories are entered and left, which game is selected and when the hook of the card
thread runs.  Which buttons the menu looks at is that of the selected game; here any
of the things they do may be next.

A run ends when a string does not fit into its array.  `ShortNames` says of a card what
keeps that from happening.

Results: `strings_fit_iff`, that every string fits its array in every run exactly on the
cards whose names are short. The one half is an invariant of the runs, `BrowseInv`; for
the other a run is shown for every name that is listed, up to the copy of that name:
`StringsFit.browsed`, `StringsFit.turn` and `StringsFit.enter` are its parts.
-/

namespace Cubiboot
namespace Browsing

open CString Games Runs

/-- Where `gm_thread_worker` is. -/
inductive Worker where
  /-- There is none. -/
  | idle
  /-- Before `gm_list_files` of the directory that is shown. -/
  | listing
  /-- In `gm_check_files`, with the files that are left. -/
  | checking (rest : List PathEntry)
  /-- In `gm_warm_card`, with `path_stack`. -/
  | warming (pathStack : List PathArray)

/-- The variables of the menu and the worker that strings are copied to and from. -/
structure BrowseState where
  gameEnumPath : PathArray
  worker : Worker
  warmPending : Bool
  gmEntryBacking : List BackingEntry
  mcpSelectedEntry : Option BackingEntry
  /-- The list of the selected entry has been replaced: the entry is released. -/
  selectedReleased : Bool

/-- Before the first `gm_start_thread`. -/
def blankState : BrowseState where
  gameEnumPath := ⟨[], by decide⟩
  worker := .idle
  warmPending := true
  gmEntryBacking := []
  mcpSelectedEntry := none
  selectedReleased := false

/-- A new worker is about to list a directory. -/
def BrowseState.restarted (s : BrowseState) (path : PathArray) : BrowseState :=
  { s with
    gameEnumPath := path
    worker := .listing
    gmEntryBacking := []
    selectedReleased := s.mcpSelectedEntry.isSome }

/-- `gm_deinit_thread`, which ends the worker, and `gm_start_thread`. -/
def restart (s : BrowseState) (target : Path) : Option BrowseState :=
  (gmStartThread s.gameEnumPath target).map s.restarted

/-- `gm_thread_worker` goes on, with the answer for a game that it checks. -/
def work (card : Card) (s : BrowseState) (answer : GameAnswer) : Option BrowseState :=
  match s.worker with
  | .idle => some s
  | .listing =>
      match card.dir s.gameEnumPath.1 with
      -- It loops for ever.
      | none => some s
      | some entries => do
          let listing ← gmListFiles s.gameEnumPath.1 entries
          some { s with worker := .checking listing }
  | .checking [] =>
      if s.warmPending then do
        let bottom ← strcpy 128 rootPath
        some { s with worker := .warming [bottom] }
      else
        some { s with worker := .idle }
  | .checking (p :: rest) => do
      let made ← gmCheckFile p answer
      some { s with
        worker := .checking rest
        gmEntryBacking := s.gmEntryBacking ++ made.toList }
  | .warming [] => some { s with worker := .idle, warmPending := false }
  | .warming (top :: pathStack) => do
      let pathStack ← gmWarmDir card.dir top pathStack
      some { s with worker := .warming pathStack }

/-- What happens next. -/
inductive BrowseEvent where
  | work (answer : GameAnswer)
  /-- A on an entry. -/
  | choose (index : Nat)
  /-- B. -/
  | back
  /-- `pre_custom_card_OSSendMessage`. -/
  | message

/-- A on an entry: a directory is entered, a game is selected. -/
def choose (card : Card) (s : BrowseState) (entry : BackingEntry) : Option BrowseState :=
  if entry.type = .directory then do
    let path ← sprintfPath entry
    restart s path.1
  else if entry.type = .game ∧ card.disableMcpSelect = false then
    some { s with mcpSelectedEntry := some entry, selectedReleased := false }
  else
    some s

/-- The state after an event, if every copy has fitted. -/
def BrowseEvent.apply (card : Card) (s : BrowseState) : BrowseEvent → Option BrowseState
  | .work answer => Browsing.work card s answer
  | .choose index =>
      match s.gmEntryBacking[index]? with
      | none => some s
      | some entry => Browsing.choose card s entry
  | .back => if s.gameEnumPath.1 ≠ rootPath then restart s parentTarget else some s
  | .message =>
      match s.mcpSelectedEntry with
      | none => some s
      | some entry => do
          let _ ← copyDiskInfo entry
          some s

/--
An event can be next.  A banner that is loaded is one that the card has for the game.
The hook does not run on an entry that has been released: what it finds there is not
what was copied from a banner.
-/
def BrowseEvent.Occurs (card : Card) (s : BrowseState) : BrowseEvent → Prop
  | .work (.loaded desc) =>
      ∀ p rest, s.worker = .checking (p :: rest) → card.banner p.path.1 desc
  | .message => s.selectedReleased = false
  | _ => True

/-- The first `gm_start_thread` has been called. -/
def Started (s : BrowseState) : Prop :=
  restart blankState rootPath = some s

/-- One event. -/
def BrowseStep (card : Card) (s s' : BrowseState) : Prop :=
  ∃ event : BrowseEvent, event.Occurs card s ∧ event.apply card s = some s'

/-- The states that browsing a card comes to. -/
abbrev Browsed (card : Card) (s : BrowseState) : Prop :=
  Reachable Started (BrowseStep card) s

/-- No copy of a string is too long for its array, whatever is browsed. -/
def StringsFit (card : Card) : Prop :=
  (∃ s, Started s) ∧
    ∀ s, Browsed card s → ∀ event : BrowseEvent, event.Occurs card s →
      ∃ s', event.apply card s = some s'

/-- A file that is listed in a directory that can be browsed to. -/
structure Listed (card : Card) (d : Path) (ent : FileEntry) : Prop where
  inTree : InTree card d
  shown : ∃ entries, card.dir d = some entries ∧ ent ∈ shown entries

/--
The names on a card are short: a path has up to 127 bytes, with the slash after it
where it is a directory, and a name that is put into an entry up to 63.  The text of a
banner ends within its first 64 bytes, unless no game is ever selected.
-/
structure ShortNames (card : Card) : Prop where
  path : ∀ d ent, Listed card d ent → d.length + ent.name.length ≤ 127
  directory : ∀ d ent, Listed card d ent → entryFileType ent = .directory →
    d.length + ent.name.length + 1 ≤ 127
  name : ∀ d ent, Listed card d ent → entryFileType ent ≠ .game → ent.name.length ≤ 63
  banner : card.disableMcpSelect = false →
    ∀ d ent, Listed card d ent → entryFileType ent = .game →
    ∀ desc, card.banner (d ++ ent.name) desc → ∃ i < 64, desc i = 0

variable {card : Card} {s s' : BrowseState} {d : Path} {ent : FileEntry}

theorem Listed.spec (h : Listed card d ent) :
    IsName ent.name ∧ ent.name ≠ [] ∧ entryFileType ent ≠ .unknown := by
  obtain ⟨entries, hdir, hent⟩ := h.shown
  exact shown_spec hdir hent

/-- A path and a type are those of a file that is listed. -/
def IsListed (card : Card) (path : Path) (type : GmFileType) : Prop :=
  ∃ d ent, Listed card d ent ∧ path = d ++ ent.name ∧ type = entryFileType ent

/-- The paths that are held are those of the tree, and the banners end. -/
structure BrowseInv (card : Card) (s : BrowseState) : Prop where
  path : InTree card s.gameEnumPath.1
  checking : ∀ rest, s.worker = .checking rest →
    ∀ p ∈ rest, IsListed card p.path.1 p.type
  warming : ∀ pathStack, s.worker = .warming pathStack → ∀ q ∈ pathStack, InTree card q.1
  entries : ∀ e ∈ s.gmEntryBacking, IsListed card e.path.1 e.type ∧
    (card.disableMcpSelect = false → e.desc.Terminated)
  selected : ∀ e, s.mcpSelectedEntry = some e → e.desc.Terminated

theorem InTree.length_le (hshort : ShortNames card) (h : InTree card d) : d.length ≤ 127 := by
  cases h with
  | root =>
      decide
  | @entered d entries ent above hdir hent htype =>
      have hlen := hshort.directory d ent ⟨above, entries, hdir, hent⟩ htype
      simpa [Nat.add_assoc] using hlen

/-- The directory that a listed path is of. -/
theorem IsListed.inTree {path : Path} (h : IsListed card path .directory) :
    InTree card (path ++ [0x2F]) := by
  obtain ⟨d, ent, hlisted, rfl, htype⟩ := h
  obtain ⟨entries, hdir, hent⟩ := hlisted.shown
  exact .entered hlisted.inTree hdir hent htype.symm

/-- A directory of the tree is listed, and its files are. -/
theorem gmListFiles_short {entries : List FileEntry}
    (hshort : ShortNames card) (hd : InTree card d) (hdir : card.dir d = some entries) :
    ∃ listing, gmListFiles d entries = some listing ∧
      ∀ p ∈ listing, IsListed card p.path.1 p.type := by
  have hroom : ∀ ent ∈ shown entries, (d ++ ent.name).length < 128 := by
    intro ent hent
    have hlen := hshort.path d ent ⟨hd, entries, hdir, hent⟩
    rw [List.length_append]
    omega
  refine ⟨(shown entries).attach.map fun ent =>
    ⟨⟨d ++ ent.1.name, hroom ent.1 ent.2⟩, entryFileType ent.1⟩, ?_, ?_⟩
  · rw [gmListFiles_eq_some, List.map_map]
    exact List.attach_map_val (f := fun ent => GmPathEntry.mk (d ++ ent.name) (entryFileType ent))
  · intro p hp
    obtain ⟨ent, _, rfl⟩ := List.mem_map.1 hp
    exact ⟨d, ent.1, ⟨hd, entries, hdir, ent.2⟩, rfl, rfl⟩

/-- A directory on the stack is listed, and the directories in it pushed. -/
theorem gmWarmDir_inv {top : PathArray} {pathStack : List PathArray}
    (hshort : ShortNames card) (hstack : ∀ q ∈ top :: pathStack, InTree card q.1) :
    ∃ pushed, gmWarmDir card.dir top pathStack = some pushed ∧
      ∀ q ∈ pushed, InTree card q.1 := by
  have hbelow : ∀ q ∈ pathStack, InTree card q.1 :=
    fun q hq => hstack q (List.mem_cons_of_mem _ hq)
  rw [gmWarmDir, strcpy_eq_some.2 rfl, Option.bind_eq_bind, Option.bind_some]
  cases hdir : card.dir top.1 with
  | none =>
      exact ⟨pathStack, rfl, hbelow⟩
  | some entries =>
      obtain ⟨listing, hlisting, hlisted⟩ :=
        gmListFiles_short hshort (hstack top List.mem_cons_self) hdir
      have hsubdir : ∀ p ∈ listing, p.type = .directory → InTree card (p.path.1 ++ [0x2F]) := by
        intro p hp htype
        exact (htype ▸ hlisted p hp).inTree
      obtain ⟨pushed, hpushed, hfrom⟩ := @pushSubdirs_spec listing pathStack fun p hp htype => by
        have hlen := (hsubdir p hp htype).length_le hshort
        rw [List.length_append, List.length_singleton] at hlen
        omega
      refine ⟨pushed, by simp only [hlisting]; exact hpushed, fun q hq => ?_⟩
      rcases hfrom q hq with hold | ⟨p, hp, htype, hq⟩
      · exact hbelow q hold
      · rw [hq]
        exact hsubdir p hp htype

theorem restart_eq_some {target : Path} :
    restart s target = some s' ↔
      ∃ path : PathArray, path.1 = startPath s.gameEnumPath.1 target ∧ s' = s.restarted path := by
  simp only [restart, Option.map_eq_some_iff, gmStartThread_eq_some]
  constructor
  · rintro ⟨path, hpath, rfl⟩
    exact ⟨path, hpath, rfl⟩
  · rintro ⟨path, hpath, rfl⟩
    exact ⟨path, hpath, rfl⟩

/-- Another directory of the tree is browsed to. -/
theorem restart_inv {target : Path} (hshort : ShortNames card)
    (htarget : InTree card (startPath s.gameEnumPath.1 target))
    (hselected : ∀ e, s.mcpSelectedEntry = some e → e.desc.Terminated) :
    ∃ s', restart s target = some s' ∧ BrowseInv card s' := by
  have hroom := htarget.length_le hshort
  obtain ⟨path, hpath⟩ := exists_stored.2 (Nat.lt_succ_of_le hroom)
  refine ⟨s.restarted path, restart_eq_some.2 ⟨path, hpath, rfl⟩, ⟨?_, ?_, ?_, ?_, hselected⟩⟩
  · exact hpath.symm ▸ htarget
  · intro rest hworker
    cases hworker
  · intro pathStack hworker
    cases hworker
  · intro e he
    cases he

/-- A game is checked with a banner of it, or without one. -/
theorem checkFile_inv {p : PathEntry} {rest : List PathEntry} {answer : GameAnswer}
    (hshort : ShortNames card) (hinv : BrowseInv card s)
    (hworker : s.worker = .checking (p :: rest))
    (hocc : (BrowseEvent.work answer).Occurs card s) :
    ∃ made, gmCheckFile p answer = some made ∧
      ∀ e ∈ made.toList, IsListed card e.path.1 e.type ∧
    (card.disableMcpSelect = false → e.desc.Terminated) := by
  have hlisted := hinv.checking _ hworker p List.mem_cons_self
  obtain ⟨d, ent, hent, hpath, htype⟩ := id hlisted
  have hname : p.type = .program ∨ p.type = .directory → (basename p.path.1).length < 64 := by
    intro hother
    rw [hpath, basename_append hent.inTree.getLast? hent.spec.1.slash]
    refine Nat.lt_succ_of_le (hshort.name d ent hent ?_)
    rw [← htype]
    rcases hother with h | h
    · rw [h]
      decide
    · rw [h]
      decide
  obtain ⟨made, hmade⟩ := (exists_gmCheckFile answer).2 hname
  refine ⟨made, hmade, fun e he => ?_⟩
  rw [Option.mem_toList] at he
  cases he
  obtain ⟨hsame, hkind, hdesc⟩ := gmCheckFile_made hmade
  refine ⟨by rw [hsame, hkind]; exact hlisted, ?_⟩
  rcases hdesc with hdesc | ⟨hgame, hdesc⟩
  · exact fun _ => hdesc
  · cases answer with
    | invalid =>
        cases hdesc
    | notLoaded =>
        rw [← Option.some_inj.1 hdesc]
        exact fun _ => ⟨0, by decide, rfl⟩
    | loaded desc =>
        rw [← Option.some_inj.1 hdesc]
        intro henabled
        exact hshort.banner henabled d ent hent (htype.symm.trans hgame) desc
          (hpath ▸ hocc p rest hworker)

/-- The worker goes on. -/
theorem work_inv {answer : GameAnswer} (hshort : ShortNames card) (hinv : BrowseInv card s)
    (hocc : (BrowseEvent.work answer).Occurs card s) :
    ∃ s', work card s answer = some s' ∧ BrowseInv card s' := by
  obtain ⟨hpath, hchecking, hwarming, hentries, hselected⟩ := id hinv
  -- The directory and the selected entry stay; the paths of the worker change.
  have hkeeps : ∀ (worker : Worker) (warmPending : Bool) (entries : List BackingEntry),
      (∀ rest, worker = .checking rest → ∀ p ∈ rest, IsListed card p.path.1 p.type) →
      (∀ pathStack, worker = .warming pathStack → ∀ q ∈ pathStack, InTree card q.1) →
      (∀ e ∈ entries, IsListed card e.path.1 e.type ∧
    (card.disableMcpSelect = false → e.desc.Terminated)) →
      BrowseInv card { s with
        worker := worker, warmPending := warmPending, gmEntryBacking := entries } :=
    fun worker warmPending entries h₁ h₂ h₃ => ⟨hpath, h₁, h₂, h₃, hselected⟩
  rw [work]
  cases hworker : s.worker with
  | idle =>
      exact ⟨s, rfl, hinv⟩
  | listing =>
      cases hdir : card.dir s.gameEnumPath.1 with
      | none =>
          exact ⟨s, rfl, hinv⟩
      | some entries =>
          obtain ⟨listing, hlisting, hlisted⟩ := gmListFiles_short hshort hpath hdir
          refine ⟨{ s with worker := .checking listing }, by simp [hlisting], ?_⟩
          refine hkeeps _ s.warmPending _ ?_ (fun _ h => Worker.noConfusion h) hentries
          intro rest hrest
          cases hrest
          exact hlisted
  | checking rest =>
      cases rest with
      | nil =>
          cases s.warmPending with
          | true =>
              have hroot : strcpy 128 rootPath = some ⟨rootPath, by decide⟩ := rfl
              refine ⟨_, by simp only [if_true, hroot]; rfl, ?_⟩
              refine hkeeps _ _ _ (fun _ h => Worker.noConfusion h) ?_ hentries
              intro pathStack hstack q hq
              cases hstack
              rw [List.mem_singleton.1 hq]
              exact .root
          | false =>
              refine ⟨_, rfl, hkeeps _ _ _ (fun _ h => Worker.noConfusion h)
                (fun _ h => Worker.noConfusion h) hentries⟩
      | cons p rest =>
          obtain ⟨made, hmade, hfrom⟩ := checkFile_inv hshort hinv hworker hocc
          refine ⟨_, by simp only [hmade]; rfl, ?_⟩
          refine hkeeps _ _ _ ?_ (fun _ h => Worker.noConfusion h) ?_
          · intro rest' hrest p' hp'
            cases hrest
            exact hchecking _ hworker p' (List.mem_cons_of_mem _ hp')
          · intro e he
            rcases List.mem_append.1 he with hold | hnew
            · exact hentries e hold
            · exact hfrom e hnew
  | warming pathStack =>
      cases pathStack with
      | nil =>
          refine ⟨_, rfl, hkeeps _ _ _ (fun _ h => Worker.noConfusion h)
            (fun _ h => Worker.noConfusion h) hentries⟩
      | cons top pathStack =>
          obtain ⟨pushed, hpushed, hfrom⟩ := gmWarmDir_inv hshort (hwarming _ hworker)
          refine ⟨_, by simp only [hpushed]; rfl, ?_⟩
          refine hkeeps _ _ _ (fun _ h => Worker.noConfusion h) ?_ hentries
          intro stack hstack
          cases hstack
          exact hfrom

/-- A directory that is chosen is entered. -/
theorem choose_inv {entry : BackingEntry} (hshort : ShortNames card) (hinv : BrowseInv card s)
    (hentry : entry ∈ s.gmEntryBacking) :
    ∃ s', choose card s entry = some s' ∧ BrowseInv card s' := by
  obtain ⟨hlisted, hdesc⟩ := hinv.entries entry hentry
  rw [choose]
  by_cases hdir : entry.type = .directory
  · have htree : InTree card (entry.path.1 ++ [0x2F]) := (hdir ▸ hlisted).inTree
    obtain ⟨path, hpath⟩ := exists_stored.2 (Nat.lt_succ_of_le (htree.length_le hshort))
    have htarget : startPath s.gameEnumPath.1 path.1 = path.1 := by
      rw [hpath, startPath_slash]
    rw [if_pos hdir, sprintfPath, strcpy_eq_some.2 hpath, Option.bind_eq_bind, Option.bind_some]
    refine restart_inv hshort ?_ hinv.selected
    rw [htarget, hpath]
    exact htree
  · rw [if_neg hdir]
    split
    · rename_i hselects
      refine ⟨_, rfl, hinv.path, hinv.checking, hinv.warming, hinv.entries, ?_⟩
      intro e he
      cases he
      exact hdesc hselects.2
    · exact ⟨s, rfl, hinv⟩

/-- While the names are short every copy fits, and the paths stay those of the tree. -/
theorem apply_inv {event : BrowseEvent} (hshort : ShortNames card) (hinv : BrowseInv card s)
    (hocc : event.Occurs card s) :
    ∃ s', event.apply card s = some s' ∧ BrowseInv card s' := by
  cases event with
  | work answer =>
      exact work_inv hshort hinv hocc
  | choose index =>
      rw [BrowseEvent.apply]
      cases hentry : s.gmEntryBacking[index]? with
      | none => exact ⟨s, rfl, hinv⟩
      | some entry => exact choose_inv hshort hinv (List.mem_of_getElem? hentry)
  | back =>
      rw [BrowseEvent.apply]
      by_cases hroot : s.gameEnumPath.1 = rootPath
      · exact ⟨s, if_neg fun h => h hroot, hinv⟩
      · rw [if_pos hroot]
        exact restart_inv hshort (hinv.path.parent hroot) hinv.selected
  | message =>
      rw [BrowseEvent.apply]
      cases hselected : s.mcpSelectedEntry with
      | none => exact ⟨s, rfl, hinv⟩
      | some entry =>
          obtain ⟨diskInfo, hcopy⟩ := copyDiskInfo_eq_some.2 (hinv.selected entry hselected)
          exact ⟨s, by simp only [hcopy]; rfl, hinv⟩

/-- The first `gm_start_thread` fits, and is of the root. -/
theorem start_spec (card : Card) : ∃ s, Started s ∧ BrowseInv card s := by
  refine ⟨blankState.restarted ⟨rootPath, by decide⟩,
    restart_eq_some.2 ⟨⟨rootPath, by decide⟩, by decide, rfl⟩, .root, ?_, ?_, ?_, ?_⟩
  · intro rest hworker
    cases hworker
  · intro pathStack hworker
    cases hworker
  · intro e he
    cases he
  · intro e he
    cases he

theorem browsed_inv (hshort : ShortNames card) (h : Browsed card s) : BrowseInv card s := by
  refine h.invariant (fun s hs => ?_) fun s s' hinv hstep => ?_
  · obtain ⟨s₀, hstart, hinv⟩ := start_spec card
    rw [Option.some_inj.1 (hs.symm.trans hstart)]
    exact hinv
  · obtain ⟨event, hocc, happly⟩ := hstep
    obtain ⟨s₁, happly₁, hinv₁⟩ := apply_inv hshort hinv hocc
    rw [Option.some_inj.1 (happly.symm.trans happly₁)]
    exact hinv₁

/-- While the names are short every copy fits. -/
theorem ShortNames.stringsFit (hshort : ShortNames card) : StringsFit card := by
  obtain ⟨s, hs, _⟩ := start_spec card
  refine ⟨⟨s, hs⟩, fun s hs event hocc => ?_⟩
  obtain ⟨s', happly, _⟩ := apply_inv hshort (browsed_inv hshort hs) hocc
  exact ⟨s', happly⟩

theorem StringsFit.next (hfit : StringsFit card) (hs : Browsed card s) (event : BrowseEvent)
    (hocc : event.Occurs card s) :
    ∃ s', event.apply card s = some s' ∧ Browsed card s' := by
  obtain ⟨s', happly⟩ := hfit.2 s hs event hocc
  exact ⟨s', happly, hs.step ⟨event, hocc, happly⟩⟩

/-- A file is checked: its entry is added to the others. -/
theorem StringsFit.check {p : PathEntry} {rest : List PathEntry}
    (hfit : StringsFit card) (hs : Browsed card s) (hworker : s.worker = .checking (p :: rest))
    (answer : GameAnswer) (hocc : (BrowseEvent.work answer).Occurs card s) :
    ∃ made, gmCheckFile p answer = some made ∧
      Browsed card { s with
        worker := .checking rest, gmEntryBacking := s.gmEntryBacking ++ made.toList } := by
  obtain ⟨s', happly, hs'⟩ := hfit.next hs (.work answer) hocc
  simp only [BrowseEvent.apply, work, hworker, Option.bind_eq_bind, Option.bind_eq_some_iff,
    Option.some_inj] at happly
  obtain ⟨made, hmade, rfl⟩ := happly
  exact ⟨made, hmade, hs'⟩

/-- The files before one are checked. -/
theorem StringsFit.checkBefore {before rest : List PathEntry} {p : PathEntry}
    (hfit : StringsFit card) (hs : Browsed card s)
    (hworker : s.worker = .checking (before ++ p :: rest)) :
    ∃ s', Browsed card s' ∧ s'.gameEnumPath = s.gameEnumPath ∧
      s'.worker = .checking (p :: rest) := by
  induction before generalizing s with
  | nil =>
      exact ⟨s, hs, rfl, hworker⟩
  | cons q before ih =>
      obtain ⟨made, _, hs₁⟩ := hfit.check hs hworker .invalid trivial
      obtain ⟨s', hs', hpath, hworker'⟩ := ih hs₁ rfl
      exact ⟨s', hs', hpath, hworker'⟩

/-- The turn of a file of the directory that is listed comes. -/
theorem StringsFit.turn {entries : List FileEntry}
    (hfit : StringsFit card) (hs : Browsed card s) (hworker : s.worker = .listing)
    (hdir : card.dir s.gameEnumPath.1 = some entries) (hent : ent ∈ shown entries) :
    ∃ s' p rest, Browsed card s' ∧ s'.worker = .checking (p :: rest) ∧
      p.path.1 = s.gameEnumPath.1 ++ ent.name ∧ p.type = entryFileType ent := by
  obtain ⟨s₁, happly, hs₁⟩ := hfit.next hs (.work .invalid) trivial
  simp only [BrowseEvent.apply, work, hworker, hdir, Option.bind_eq_bind,
    Option.bind_eq_some_iff, Option.some_inj] at happly
  obtain ⟨listing, hlisting, rfl⟩ := happly
  have hmem : (⟨s.gameEnumPath.1 ++ ent.name, entryFileType ent⟩ : GmPathEntry) ∈
      listing.map PathEntry.value := by
    rw [gmListFiles_eq_some.1 hlisting]
    exact List.mem_map_of_mem hent
  obtain ⟨p, hp, hvalue⟩ := List.mem_map.1 hmem
  obtain ⟨before, rest, rfl⟩ := List.append_of_mem hp
  obtain ⟨s', hs', _, hworker'⟩ := hfit.checkBefore hs₁ rfl
  obtain ⟨hpath, htype⟩ := GmPathEntry.mk.inj hvalue
  exact ⟨s', p, rest, hs', hworker', hpath, htype⟩

theorem gmCheckFile_directory {p : PathEntry} {answer : GameAnswer}
    {made : Option BackingEntry} (htype : p.type = .directory)
    (h : gmCheckFile p answer = some made) : ∃ e, made = some e := by
  simp only [gmCheckFile, htype] at h
  obtain ⟨e, _, he⟩ := Option.map_eq_some_iff.1 h
  exact ⟨e, he.symm⟩

/-- The entry that has just been made is chosen. -/
theorem StringsFit.chooseLast {entries : List BackingEntry} {e : BackingEntry}
    (hfit : StringsFit card) (hs : Browsed card s) (hentries : s.gmEntryBacking = entries ++ [e]) :
    ∃ s', choose card s e = some s' ∧ Browsed card s' := by
  obtain ⟨s', happly, hs'⟩ := hfit.next hs (.choose entries.length) trivial
  rw [BrowseEvent.apply, hentries, List.getElem?_concat_length] at happly
  exact ⟨s', happly, hs'⟩

/-- A directory whose turn comes is entered. -/
theorem StringsFit.enter {p : PathEntry} {rest : List PathEntry}
    (hfit : StringsFit card) (hs : Browsed card s) (hworker : s.worker = .checking (p :: rest))
    (htype : p.type = .directory) :
    ∃ s', Browsed card s' ∧ s'.worker = .listing ∧
      s'.gameEnumPath.1 = p.path.1 ++ [0x2F] := by
  obtain ⟨made, hmade, hs₁⟩ := hfit.check hs hworker .invalid trivial
  obtain ⟨e, rfl⟩ := gmCheckFile_directory htype hmade
  obtain ⟨hpath, hkind, _⟩ := gmCheckFile_made hmade
  obtain ⟨s', hchoose, hs'⟩ := hfit.chooseLast hs₁ rfl
  rw [choose, if_pos (hkind.trans htype), Option.bind_eq_bind, Option.bind_eq_some_iff] at hchoose
  obtain ⟨target, htarget, hrestart⟩ := hchoose
  obtain ⟨path, hstart, rfl⟩ := restart_eq_some.1 hrestart
  refine ⟨_, hs', rfl, ?_⟩
  rw [sprintfPath, strcpy_eq_some, hpath] at htarget
  rw [BrowseState.restarted, hstart, htarget, startPath_slash]

/-- A directory of the tree is browsed to. -/
theorem StringsFit.browsed (hfit : StringsFit card) (h : InTree card d) :
    ∃ s, Browsed card s ∧ s.worker = .listing ∧ s.gameEnumPath.1 = d := by
  induction h with
  | root =>
      obtain ⟨s, hs⟩ := hfit.1
      obtain ⟨path, hpath, rfl⟩ := restart_eq_some.1 hs
      exact ⟨_, .start hs, rfl, hpath⟩
  | @entered d entries ent above hdir hent htype ih =>
      obtain ⟨s, hs, hworker, rfl⟩ := ih
      obtain ⟨s₁, p, rest, hs₁, hworker₁, hpath, hkind⟩ := hfit.turn hs hworker hdir hent
      obtain ⟨s', hs', hworker', hpath'⟩ := hfit.enter hs₁ hworker₁ (hkind.trans htype)
      exact ⟨s', hs', hworker', by rw [hpath', hpath]⟩

/-- The turn of a file that is listed comes. -/
theorem StringsFit.listed (hfit : StringsFit card) (h : Listed card d ent) :
    ∃ s p rest, Browsed card s ∧ s.worker = .checking (p :: rest) ∧
      p.path.1 = d ++ ent.name ∧ p.type = entryFileType ent := by
  obtain ⟨entries, hdir, hent⟩ := h.shown
  obtain ⟨s, hs, hworker, rfl⟩ := hfit.browsed h.inTree
  exact hfit.turn hs hworker hdir hent

/-- A game is checked with its banner, selected, and the hook of the card thread runs. -/
theorem StringsFit.diskInfo {p : PathEntry} {rest : List PathEntry} {desc : Nat → UInt8}
    (hfit : StringsFit card) (henabled : card.disableMcpSelect = false)
    (hs : Browsed card s) (hworker : s.worker = .checking (p :: rest))
    (htype : p.type = .game) (hbanner : card.banner p.path.1 desc) :
    ∃ i < 64, desc i = 0 := by
  have hocc : (BrowseEvent.work (.loaded desc)).Occurs card s := by
    intro p' rest' hworker'
    rw [hworker] at hworker'
    cases hworker'
    exact hbanner
  obtain ⟨made, hmade, hs₁⟩ := hfit.check hs hworker (.loaded desc) hocc
  simp only [gmCheckFile, htype, GameAnswer.desc, Option.map_some, Option.some_inj] at hmade
  obtain rfl := hmade
  obtain ⟨s₂, hchoose, hs₂⟩ := hfit.chooseLast hs₁ rfl
  rw [choose, if_neg GmFileType.noConfusion, if_pos ⟨rfl, henabled⟩,
    Option.some_inj] at hchoose
  obtain rfl := hchoose
  obtain ⟨s', happly, _⟩ := hfit.next hs₂ .message rfl
  simp only [BrowseEvent.apply, Option.bind_eq_bind, Option.bind_eq_some_iff] at happly
  obtain ⟨diskInfo, hcopy, _⟩ := happly
  exact copyDiskInfo_eq_some.1 ⟨diskInfo, hcopy⟩

/-- Where every copy fits the names are short. -/
theorem StringsFit.shortNames (hfit : StringsFit card) : ShortNames card := by
  constructor
  · intro d ent h
    obtain ⟨s, p, rest, hs, hworker, hpath, htype⟩ := hfit.listed h
    have hlen := p.path.2
    rw [hpath, List.length_append] at hlen
    omega
  · intro d ent h hdir
    obtain ⟨s, p, rest, hs, hworker, hpath, htype⟩ := hfit.listed h
    obtain ⟨s', _, _, hentered⟩ := hfit.enter hs hworker (htype.trans hdir)
    have hlen := s'.gameEnumPath.2
    rw [hentered, hpath, List.length_append, List.length_append, List.length_singleton] at hlen
    omega
  · intro d ent h hgame
    obtain ⟨s, p, rest, hs, hworker, hpath, htype⟩ := hfit.listed h
    obtain ⟨made, hmade, _⟩ := hfit.check hs hworker .invalid trivial
    have hother : p.type = .program ∨ p.type = .directory := by
      have hknown := h.spec.2.2
      rw [← htype] at hgame hknown
      cases hkind : p.type with
      | game => exact absurd hkind hgame
      | program => exact Or.inl rfl
      | directory => exact Or.inr rfl
      | unknown => exact absurd hkind hknown
    have hlen := (exists_gmCheckFile .invalid).1 ⟨made, hmade⟩ hother
    rw [hpath, basename_append h.inTree.getLast? h.spec.1.slash] at hlen
    omega
  · intro henabled d ent h hgame desc hbanner
    obtain ⟨s, p, rest, hs, hworker, hpath, htype⟩ := hfit.listed h
    exact hfit.diskInfo henabled hs hworker (htype.trans hgame) (hpath ▸ hbanner)

/--
Every copy that browsing a card makes fits its array just when the names on the card are
short and the texts of the banners end.
-/
theorem strings_fit_iff (card : Card) : StringsFit card ↔ ShortNames card :=
  ⟨StringsFit.shortNames, ShortNames.stringsFit⟩

/-- A name of 64 bytes. -/
def longName : List UInt8 :=
  List.replicate 64 0x61

theorem longName_isName : IsName longName where
  length_le := by decide
  slash := by decide
  terminator := by decide

/-- A card whose root holds a directory with a name of 64 bytes. -/
def longNameCard : Card where
  dir path := if path = rootPath then some [⟨longName, fileEntryTypeDir, 0⟩] else none
  banner := fun _ _ => False
  disableMcpSelect := false
  names := by
    intro path entries hdir ent hent
    split at hdir
    · cases hdir
      rw [List.mem_singleton.1 hent]
      exact longName_isName
    · cases hdir

/-- There is no room for the name in `fullGameName`. -/
theorem long_name_overruns : ¬ StringsFit longNameCard := by
  intro hfit
  have hshown : shown [⟨longName, fileEntryTypeDir, 0⟩] = [⟨longName, fileEntryTypeDir, 0⟩] := rfl
  have hlisted : Listed longNameCard rootPath ⟨longName, fileEntryTypeDir, 0⟩ :=
    ⟨.root, _, rfl, hshown.symm ▸ List.mem_singleton_self _⟩
  have hlen := hfit.shortNames.name rootPath _ hlisted (by decide)
  exact absurd hlen (by decide)

end Browsing
end Cubiboot
