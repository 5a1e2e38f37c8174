import Cubiboot.Browsing.Walk
import Cubiboot.Foundations.Worklist

/-!
# The walk covers the card

Where all calls for directories succeed, and the tree is one that there is room for,
`gm_warm_card` lists every directory that is not hidden, once each, and takes the games
of all but `skip_dir` through `gm_warm_files`.  Nothing is asked of the calls for games:
a file may be missing, broken or no game at all.

Results: `below_root`, the directories that the stack comes to are those that are not
hidden; `Warmable.isTree` and `Warmable.exists_walk`, they make a tree, and its walk
ends; `warmCardBody_visits` and `run_walk`, what one pass does, and what the passes from
any stack do; and `walk_covers_card`, which names the directories in the order in which
they are listed.  Its last part is a run of `GameWarmed`, one step for each game: the
file is opened, looked into and closed, and a banner it has is in the cache afterwards.
-/

namespace Cubiboot
namespace Browsing

open CString FuelLoop Games Worklist Disc Runs

/-- The directories that are not hidden, and reached through such. -/
inductive Unhidden (card : Card) : Path → Prop
  | root : Unhidden card rootPath
  | entered {d : Path} {entries : List FileEntry} {ent : FileEntry}
      (above : Unhidden card d)
      (hdir : card.dir d = some entries)
      (hent : ent ∈ visible entries)
      (htype : entryFileType ent = .directory) :
      Unhidden card (d ++ ent.name ++ [0x2F])

/-- The entries of a directory that are not hidden. -/
def Card.list (card : Card) (d : Path) : List GmPathEntry :=
  match card.dir d with
  | none => []
  | some entries => (visible entries).map fun ent => ⟨d ++ ent.name, entryFileType ent⟩

/-- The directories in a directory, the one that is pushed last first. -/
def Card.subdirs (card : Card) (d : Path) : List Path :=
  (subdirPaths (card.list d)).reverse

/-- A tree of directories that the walk has room for. -/
structure Warmable (card : Card) : Prop where
  present : ∀ d, Unhidden card d → ∃ entries, card.dir d = some entries
  /-- A directory has no name twice. -/
  distinct : ∀ d entries, Unhidden card d → card.dir d = some entries →
    ((visible entries).map (·.name)).Nodup
  few : ∀ d entries, Unhidden card d → card.dir d = some entries →
    (visible entries).length ≤ 1919
  fits : ∀ d, Unhidden card d → ∀ entry ∈ card.list d, entry.path.length < 128
  subdirFits : ∀ d, Unhidden card d → ∀ subdir ∈ card.subdirs d, subdir.length < 128
  /-- There are 100 places for what is pending. -/
  pending : ∀ stack, Relation.ReflTransGen (Pops card.subdirs) [rootPath] stack →
    stack.length ≤ 100

/-- All calls for directories succeed, and the walk is not asked to stop. -/
structure WalkCalls.Quiet (c : WalkCalls) : Prop where
  opens : ∀ n, (c.dir n).openFails = false
  status : ∀ n, (c.dir n).statusFails = false
  readdir : ∀ n i, (c.dir n).readdirFails i = false
  stop : ∀ n, c.stop n = false
  stopGame : ∀ n game, c.stopGame n game = false

variable {card : Card} {d b : Path}

theorem mem_subdirs :
    b ∈ card.subdirs d ↔
      ∃ entries ent, card.dir d = some entries ∧ ent ∈ visible entries ∧
        entryFileType ent = .directory ∧ b = d ++ ent.name ++ [0x2F] := by
  rw [Card.subdirs, List.mem_reverse, Card.list]
  cases hdir : card.dir d with
  | none =>
      simp [subdirPaths]
  | some entries =>
      simp only [subdirPaths, List.mem_map, List.mem_filter, decide_eq_true_eq]
      constructor
      · rintro ⟨_, ⟨⟨ent, hent, rfl⟩, htype⟩, rfl⟩
        exact ⟨entries, ent, rfl, hent, htype, rfl⟩
      · rintro ⟨_, ent, heq, hent, htype, rfl⟩
        cases heq
        exact ⟨_, ⟨⟨ent, hent, rfl⟩, htype⟩, rfl⟩

/-- What is below the root is what is not hidden. -/
theorem below_root : Below card.subdirs rootPath d ↔ Unhidden card d := by
  constructor
  · intro h
    induction h with
    | refl =>
        exact .root
    | tail _ hchild ih =>
        obtain ⟨entries, ent, hdir, hent, htype, rfl⟩ := mem_subdirs.1 hchild
        exact .entered ih hdir hent htype
  · intro h
    induction h with
    | root =>
        exact Below.refl
    | entered _ hdir hent htype ih =>
        exact Relation.ReflTransGen.tail ih (mem_subdirs.2 ⟨_, _, hdir, hent, htype, rfl⟩)

theorem Unhidden.subdir (h : Unhidden card d) (hb : b ∈ card.subdirs d) : Unhidden card b :=
  below_root.1 (Relation.ReflTransGen.tail (below_root.2 h) hb)

/-- A directory in another one has its path, a name and a slash. -/
theorem subdir_eq (hb : b ∈ card.subdirs d) : ∃ name, 0x2F ∉ name ∧ b = d ++ name ++ [0x2F] := by
  obtain ⟨entries, ent, hdir, hent, _, rfl⟩ := mem_subdirs.1 hb
  have hmem := (List.takeWhile_sublist _).subset (List.mem_of_mem_filter hent)
  exact ⟨ent.name, (card.names d entries hdir ent hmem).slash, rfl⟩

theorem subdir_length (hb : b ∈ card.subdirs d) : d.length < b.length := by
  obtain ⟨name, _, rfl⟩ := subdir_eq hb
  rw [List.length_append, List.length_append, List.length_singleton]
  omega

/-- What is below a directory has its path at the start. -/
theorem below_isPrefix (h : Below card.subdirs d b) : d <+: b := by
  induction h with
  | refl =>
      exact List.prefix_refl d
  | tail _ hchild ih =>
      obtain ⟨name, _, rfl⟩ := subdir_eq hchild
      rw [List.append_assoc]
      exact ih.trans (List.prefix_append _ _)

/-- One name is not the start of another one, with the slash. -/
theorem name_eq_of_isPrefix {n m : List UInt8} (hm : 0x2F ∉ m) (h : n ++ [0x2F] <+: m ++ [0x2F]) :
    n = m := by
  rcases List.prefix_concat_iff.1 h with heq | hstart
  · exact List.append_cancel_right heq
  · exact absurd (hstart.subset (by simp)) hm

/-- Nothing is below two directories in one. -/
theorem subdirs_apart {a : Path} (ha : a ∈ card.subdirs d) (hb : b ∈ card.subdirs d)
    (hne : a ≠ b) : Apart card.subdirs a b := by
  intro c hac hbc
  obtain ⟨n, hn, rfl⟩ := subdir_eq ha
  obtain ⟨m, hm, rfl⟩ := subdir_eq hb
  apply hne
  rcases List.prefix_or_prefix_of_prefix (below_isPrefix hac) (below_isPrefix hbc) with h | h
  · rw [List.append_assoc, List.append_assoc, List.prefix_append_right_inj] at h
    rw [name_eq_of_isPrefix hm h]
  · rw [List.append_assoc, List.append_assoc, List.prefix_append_right_inj] at h
    rw [name_eq_of_isPrefix hn h]

theorem Warmable.subdirs_nodup (h : Warmable card) (hd : Unhidden card d) :
    (card.subdirs d).Nodup := by
  rw [Card.subdirs, List.nodup_reverse, Card.list]
  cases hdir : card.dir d with
  | none =>
      exact List.nodup_nil
  | some entries =>
      have hnames := (h.distinct d entries hd hdir).sublist
        ((List.filter_sublist (p := fun ent => entryFileType ent = .directory)).map (·.name))
      have hpaths := hnames.map (f := fun name => d ++ name ++ [0x2F]) fun n m heq => by
        simpa using heq
      rw [List.map_map] at hpaths
      simpa [subdirPaths, List.filter_map, Function.comp_def] using hpaths

theorem Warmable.isTree (h : Warmable card) : IsTree card.subdirs rootPath where
  acyclic x _ b hb hback := by
    have hlonger := subdir_length hb
    have hle := (below_isPrefix hback).length_le
    omega
  apart x hx :=
    (h.subdirs_nodup (below_root.1 hx)).pairwise_of_forall_ne fun a ha b hb hne =>
      subdirs_apart ha hb hne

/-- The walk of the card ends. -/
theorem Warmable.exists_walk (h : Warmable card) :
    ∃ visited, Walk card.subdirs [rootPath] visited := by
  refine Worklist.exists_walk (n := 1919) (Unhidden card) (fun d => 128 - d.length) ?_ ?_ _ ?_
  · intro d hd b hb
    have hlonger := subdir_length hb
    have hfits := h.subdirFits d hd b hb
    exact ⟨hd.subdir hb, by omega⟩
  · intro d hd
    obtain ⟨entries, hdir⟩ := h.present d hd
    have hfew := h.few d entries hd hdir
    have hle : (card.subdirs d).length ≤ (visible entries).length := by
      rw [Card.subdirs, List.length_reverse, subdirPaths, List.length_map, Card.list, hdir]
      exact (List.length_filter_le _ _).trans_eq (List.length_map _)
    omega
  · intro d hd
    rw [List.mem_singleton.1 hd]
    exact .root

section Runs

variable (bnrOffsets : BnrOffsets) {c : WalkCalls} (skipDir : Option Path)

/-- The games of directories, of which the first is the `number`th that is listed. -/
def Card.games (card : Card) (c : WalkCalls) (skipDir : Option Path) (number : Nat)
    (visited : List Path) : List WalkGame :=
  (visited.zipIdx number).flatMap fun entry =>
    warmedGames c skipDir entry.2 entry.1 (card.list entry.1)

/-- What the walk does for them: each is listed, and its games come next. -/
def Card.walkEvents (card : Card) (c : WalkCalls) (skipDir : Option Path) (number : Nat)
    (visited : List Path) : List WalkEvent :=
  (visited.zipIdx number).flatMap fun entry =>
    .listed entry.1 ::
      (warmedGames c skipDir entry.2 entry.1 (card.list entry.1)).map WalkGame.event

/-- One pass lists the top of the stack, and puts its directories in its place. -/
theorem warmCardBody_visits (h : Warmable card) (hc : c.Quiet) {d : Path} {stack : List Path}
    (hd : Unhidden card d) (hroom : (card.subdirs d ++ stack).length ≤ 100) {s : WalkState}
    (hstack : s.pathStack.map (·.1) = d :: stack) (hpanicked : s.panicked = false) :
    ∃ next, warmCardBody bnrOffsets card.dir c skipDir s = some (.inl next) ∧
      (next.pathStack.map (·.1) = card.subdirs d ++ stack ∧ next.panicked = false ∧
        next.listings = s.listings + 1) ∧
      next.events = s.events ++ .listed d ::
        (warmedGames c skipDir s.listings d (card.list d)).map WalkGame.event ∧
      Labelled (GameWarmed bnrOffsets) (warmedGames c skipDir s.listings d (card.list d))
        s.warm next.warm := by
  obtain ⟨top, rest, hpath, rfl, rfl⟩ := List.map_eq_cons_iff.1 hstack
  obtain ⟨entries, hdir⟩ := h.present top.1 hd
  have hlist : card.list top.1 =
      (shown entries).map fun ent => ⟨top.1 ++ ent.name, entryFileType ent⟩ := by
    have hfew := h.few top.1 entries hd hdir
    rw [Card.list, hdir, shown, List.take_of_length_le (by rw [maxPathEntries]; omega)]
  obtain ⟨listing, hlisting⟩ := exists_listing.2 (h.fits top.1 hd)
  have hlisted : listDir (c.dir s.listings) card.dir top.1 = .ok (some listing) :=
    (listDir_eq_listing ⟨hdir, hc.opens _, hc.status _⟩).2
      ⟨fun i _ => hc.readdir _ i, hlisting.trans hlist⟩
  rcases hwarmed : warmListing bnrOffsets c skipDir s.listings top.1 listing
    (s.listing rest top.1) with ⟨through, next⟩
  obtain rfl : through = true :=
    (warmListing_through hwarmed).2 (Or.inr fun i _ => hc.stopGame _ _)
  have hfits : ∀ subdir ∈ subdirPaths (listing.map PathEntry.value), subdir.length < 128 :=
    fun subdir hsubdir => h.subdirFits top.1 hd subdir (List.mem_reverse.2 (hlisting ▸ hsubdir))
  obtain ⟨pushed, hpushed⟩ := (exists_pushSubdirs rest).2 hfits
  have hnew : pushed.map (·.1) = card.subdirs top.1 ++ rest.map (·.1) := by
    rw [List.length_append, Card.subdirs, List.length_reverse] at hroom
    rw [(pushSubdirs_eq_some.1 hpushed).2, hlisting, pushPaths_eq (by omega), Card.subdirs]
  have hwalk := warmListing_walk hwarmed
  have hgames := warmListing_games hwarmed
  rw [hlisting] at hgames
  refine ⟨{ next with pathStack := pushed }, ?_, ⟨hnew, hwalk.2.2.trans hpanicked, hwalk.2.1⟩,
    ?_, hgames.2⟩
  · rw [warmCardBody_pushes hpanicked hpath (hc.stop _) hlisted hwarmed, hpushed]
    rfl
  · show next.events = _
    rw [hgames.1, WalkState.listing, List.append_assoc, List.singleton_append]

/-- The walk is run, from any stack that it comes to. -/
theorem run_walk (h : Warmable card) (hc : c.Quiet) {stack visited : List Path}
    (hwalk : Walk card.subdirs stack visited) (hstack : ∀ d ∈ stack, Unhidden card d)
    (hcomes : Relation.ReflTransGen (Pops card.subdirs) [rootPath] stack) {s : WalkState}
    (hs : s.pathStack.map (·.1) = stack) (hpanicked : s.panicked = false) :
    ∃ fuel s', run (warmCardBody bnrOffsets card.dir c skipDir) fuel s = some (true, s') ∧
      s'.events = s.events ++ card.walkEvents c skipDir s.listings visited ∧
      Labelled (GameWarmed bnrOffsets) (card.games c skipDir s.listings visited)
        s.warm s'.warm := by
  induction hwalk generalizing s with
  | done =>
      refine ⟨1, s, ?_, (List.append_nil _).symm, .nil _⟩
      rw [run, warmCardBody, List.map_eq_nil_iff.1 hs, hpanicked]
      rfl
  | @visit d stack visited _ ih =>
      have hd := hstack d List.mem_cons_self
      have hnext := Relation.ReflTransGen.tail hcomes ⟨d, stack, rfl, rfl⟩
      obtain ⟨next, hbody, ⟨hpath, hgoes, hnumber⟩, hevents, hgames⟩ :=
        warmCardBody_visits bnrOffsets skipDir h hc hd (h.pending _ hnext) hs hpanicked
      have hbelow : ∀ b ∈ card.subdirs d ++ stack, Unhidden card b := by
        intro b hb
        rcases List.mem_append.1 hb with hchild | hother
        · exact hd.subdir hchild
        · exact hstack b (List.mem_cons_of_mem _ hother)
      obtain ⟨fuel, s', hrun, hrest, hothers⟩ := ih hbelow hnext hpath hgoes
      rw [hnumber] at hrest hothers
      refine ⟨fuel + 1, s', ?_, ?_, ?_⟩
      · rw [run, hbody]
        exact hrun
      · rw [hrest, hevents, List.append_assoc]
        simp only [Card.walkEvents, List.zipIdx_cons, List.flatMap_cons]
      · rw [Card.games, List.zipIdx_cons, List.flatMap_cons]
        exact hgames.append hothers

end Runs

/--
The walk of a card is through after a while: it has listed the directories that are not
hidden, once each, and after each listing, unless it was of `skip_dir`, its games have
been looked into, and their banners have come to the cache.
-/
theorem walk_covers_card {c : WalkCalls} (h : Warmable card) (hc : c.Quiet)
    (bnrOffsets : BnrOffsets) (skipDir : Option Path) (buffers : InfoBuffers) (gm : GmState) :
    ∃ fuel s, ∃ visited : List Path,
      gmWarmCard bnrOffsets card.dir c skipDir buffers gm fuel = some (true, s) ∧
      visited.Nodup ∧ (∀ d, d ∈ visited ↔ Unhidden card d) ∧
      s.events = card.walkEvents c skipDir 0 visited ∧
      Labelled (GameWarmed bnrOffsets) (card.games c skipDir 0 visited)
        ⟨buffers, gm⟩ ⟨s.buffers, s.gm⟩ := by
  obtain ⟨visited, hwalk⟩ := h.exists_walk
  have hroot : ∀ d ∈ [rootPath], Unhidden card d := by
    intro d hd
    rw [List.mem_singleton.1 hd]
    exact .root
  obtain ⟨bottom, hbottom⟩ := exists_stored.2 (show rootPath.length < 128 by decide)
  obtain ⟨fuel, s, hrun, heffects⟩ := run_walk bnrOffsets skipDir
    (s := ⟨[bottom], 0, false, buffers, gm, []⟩) h hc hwalk hroot .refl
    (by rw [List.map_singleton, hbottom]) rfl
  refine ⟨fuel, s, visited, ?_, ?_, ?_, heffects⟩
  · rw [gmWarmCard, strcpy_eq_some.2 hbottom]
    exact hrun
  · exact hwalk.nodup (fun d hd => List.mem_singleton.1 hd ▸ h.isTree) (List.pairwise_singleton _ _)
  · intro d
    rw [hwalk.mem_iff]
    simp only [List.mem_singleton, exists_eq_left, below_root]

/-- `"/a/"`. -/
def smallDir : Path :=
  [0x2F, 0x61, 0x2F]

/-- `"b.iso"`. -/
def smallGame : FileEntry :=
  ⟨[0x62, 0x2E, 0x69, 0x73, 0x6F], 0, 0⟩

/-- A directory, another one that is hidden, and a game. -/
def smallRoot : List FileEntry :=
  [⟨[0x61], fileEntryTypeDir, 0⟩, ⟨[0x63], fileEntryTypeDir, fileAttribFlagHidden⟩, smallGame]

/-- A card with a game in the root, and one in the directory there. -/
def smallCard : Card where
  dir path :=
    if path = rootPath then some smallRoot
    else if path = smallDir then some [smallGame]
    else none
  banner := fun _ _ => False
  disableMcpSelect := false
  names := by
    intro path entries hdir ent hent
    have hall : ∀ ent ∈ smallRoot, IsName ent.name := by
      intro ent hent
      simp only [smallRoot, smallGame, List.mem_cons, List.not_mem_nil, or_false] at hent
      rcases hent with rfl | rfl | rfl <;> constructor <;> decide
    split at hdir
    · cases hdir
      exact hall ent hent
    · split at hdir
      · cases hdir
        rw [List.mem_singleton.1 hent]
        exact hall smallGame (by simp [smallRoot])
      · cases hdir

theorem Unhidden.small (h : Unhidden smallCard d) : d = rootPath ∨ d = smallDir := by
  induction h with
  | root =>
      exact Or.inl rfl
  | @entered d entries ent _ hdir hent htype ih =>
      have hchild := mem_subdirs.2 ⟨entries, ent, hdir, hent, htype, rfl⟩
      rcases ih with rfl | rfl
      · exact Or.inr (List.mem_singleton.1 hchild)
      · cases hchild

theorem smallCard_warmable : Warmable smallCard where
  present d hd := by
    rcases hd.small with rfl | rfl
    · exact ⟨smallRoot, rfl⟩
    · exact ⟨[smallGame], rfl⟩
  distinct d entries hd hdir := by
    rcases hd.small with rfl | rfl <;> cases hdir <;> decide
  few d entries hd hdir := by
    rcases hd.small with rfl | rfl <;> cases hdir <;> decide
  fits d hd := by
    rcases hd.small with rfl | rfl <;> decide
  subdirFits d hd := by
    rcases hd.small with rfl | rfl <;> decide
  pending stack hcomes := by
    have hstacks : stack = [rootPath] ∨ stack = [smallDir] ∨ stack = [] := by
      induction hcomes with
      | refl =>
          exact Or.inl rfl
      | tail _ hpops ih =>
          obtain ⟨d, rest, heq, rfl⟩ := hpops
          rcases ih with rfl | rfl | rfl
          · cases heq
            exact Or.inr (Or.inl rfl)
          · cases heq
            exact Or.inr (Or.inr rfl)
          · cases heq
    rcases hstacks with rfl | rfl | rfl <;> decide

/-- Calls that all succeed, on files of a game with a banner. -/
def quietCalls : WalkCalls where
  dir := fun _ => ⟨false, false, fun _ => false⟩
  stop := fun _ => false
  game := fun _ _ => ⟨gameBefore, ⟨true, sizeofBnr, fun _ => 0⟩⟩
  stopGame := fun _ _ => false

theorem quietCalls_quiet : quietCalls.Quiet :=
  ⟨fun _ => rfl, fun _ => rfl, fun _ _ => rfl, fun _ => rfl, fun _ _ => rfl⟩

/-- `"/b.iso"`. -/
def rootGame : Path :=
  [0x2F, 0x62, 0x2E, 0x69, 0x73, 0x6F]

theorem gameBefore_hasBanner : HasBanner [] gameBefore clearedBuffers := by
  constructor <;> decide +kernel

theorem small_visited {visited : List Path} (hnodup : visited.Nodup)
    (hvisited : ∀ d, d ∈ visited ↔ Unhidden smallCard d) :
    visited.Perm [rootPath, smallDir] := by
  refine (List.perm_ext_iff_of_nodup hnodup (by decide)).2 fun d => ?_
  rw [hvisited]
  constructor
  · intro h
    simpa using h.small
  · intro h
    have hsmall : smallDir ∈ smallCard.subdirs rootPath := by decide
    rcases List.mem_pair.1 h with rfl | rfl
    · exact .root
    · exact Unhidden.root.subdir hsmall

/-- Where the calls do not depend on the numbers, what is done is what is done for each. -/
theorem flatMap_zipIdx {α β : Type} (f : α → List β) (list : List α) (n : Nat) :
    ((list.zipIdx n).flatMap fun entry => f entry.1) = list.flatMap f := by
  conv_rhs => rw [← List.zipIdx_map_fst n list, List.flatMap_map]

/-- The walk of the card, after the directory on it. -/
theorem walk_covers_small_card :
    ∃ fuel s,
      gmWarmCard [] smallCard.dir quietCalls (some smallDir) clearedBuffers .blank fuel =
        some (true, s) ∧
      s.events.Perm [.listed rootPath, .game rootGame [.opened 0, .closed 0], .listed smallDir] ∧
      s.gm.bnrCache.lookup (gmBnrCacheKey rootGame) ≠ none := by
  obtain ⟨fuel, s, visited, hrun, hnodup, hvisited, hevents, hgames⟩ :=
    walk_covers_card smallCard_warmable quietCalls_quiet [] (some smallDir) clearedBuffers .blank
  have hperm := small_visited hnodup hvisited
  have hone : (smallCard.games quietCalls (some smallDir) 0 visited).Perm
      [⟨rootGame, quietCalls.game 0 0⟩] :=
    (List.Perm.of_eq (flatMap_zipIdx (fun d =>
      warmedGames quietCalls (some smallDir) 0 d (smallCard.list d)) visited 0)).trans
        (hperm.flatMap_right _)
  rw [List.perm_singleton.1 hone] at hgames
  refine ⟨fuel, s, hrun, ?_, ?_⟩
  · rw [hevents]
    exact (List.Perm.of_eq (flatMap_zipIdx (fun d => .listed d ::
      (warmedGames quietCalls (some smallDir) 0 d (smallCard.list d)).map WalkGame.event)
        visited 0)).trans (hperm.flatMap_right _)
  · cases hgames with
    | cons hwarmed hrest =>
        cases hrest
        exact hwarmed.cached gameBefore_hasBanner

end Browsing
end Cubiboot
