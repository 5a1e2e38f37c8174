import Cubiboot.Games.Effects

/-!
# Lines and new entries

`gm_line_load` and `gm_line_free` visit the games of a line one after the other,
and so do all later arguments about them.  A pass of the loop of
`gm_check_files` publishes one entry and leaves the listed ones alone.

Results: `gmLineLoad_eq` and `gmLineFree_eq`, a line as a list of its games;
`foldl_load_others`, `foldl_free_others` and `foldl_free_state`, the banners after such
a list, each by induction on it; `gmCheckFile_cases` and `gmCheckFile_new`, what a pass
of `gm_check_files` publishes; and `gmCheckFile_others`, that it changes no other
banner.
-/

namespace Cubiboot
namespace Games

/-- Functions that change banners only. -/
structure SameShape (s s' : GmState) : Prop where
  type : ∀ e, (s'.entry e).type = (s.entry e).type
  released : s'.gmReleased = s.gmReleased
  count : s'.gmEntryCount = s.gmEntryCount

theorem SameShape.refl (s : GmState) : SameShape s s :=
  ⟨fun _ => rfl, rfl, rfl⟩

theorem SameShape.trans
    {s s' s'' : GmState} (h : SameShape s s') (h' : SameShape s' s'') :
    SameShape s s'' :=
  ⟨fun e => (h'.type e).trans (h.type e), h'.released.trans h.released,
    h'.count.trans h.count⟩

theorem SameShape.nextEntry
    {s s' : GmState} (h : SameShape s s') : s'.nextEntry = s.nextEntry := by
  unfold GmState.nextEntry
  rw [h.released, h.count]

theorem Effect.shape
    {s s' : GmState} {e : Nat} {b : GmBanner} {used : PoolSlot → Bool}
    {posts : List ArqPost} (h : Effect s s' e b used posts) :
    SameShape s s' :=
  ⟨h.type, h.released, h.count⟩

theorem gmBannerLoad_shape (s : GmState) (e : Nat) :
    SameShape s (gmBannerLoad s e) := by
  by_cases h : (s.banner e).state = .none ∨ (s.banner e).state = .loaded
  · rw [gmBannerLoad_idle h]
    exact .refl s
  · cases hslot : s.freeSlot with
    | none => exact (gmBannerLoad_exhausted hslot h).shape
    | some k => exact (gmBannerLoad_effect hslot h).shape

theorem gmBannerFree_shape (s : GmState) (e : Nat) :
    SameShape s (gmBannerFree s e) := by
  cases hst : (s.banner e).state with
  | none =>
      rw [gmBannerFree_idle (Or.inl hst)]
      exact .refl s
  | unloading =>
      rw [gmBannerFree_idle (Or.inr hst)]
      exact .refl s
  | setup => exact (gmBannerFree_deferred (Or.inr hst)).shape
  | loading => exact (gmBannerFree_deferred (Or.inl hst)).shape
  | unloaded => exact (gmBannerFree_effect (Or.inl hst)).shape
  | loaded => exact (gmBannerFree_effect (Or.inr hst)).shape

/-- The entries of a line from column `i` on. -/
def entriesFrom (s : GmState) (lineNum todo i : Nat) : List Nat :=
  (((List.range' i todo).map fun i => lineNum * assetsPerLine + i).filter
    fun index => decide (index < s.gmEntryCount)).map fun index =>
      s.gmReleased + index

/-- The games of a line, in the order in which its loop visits them. -/
def lineGames (s : GmState) (lineNum : Nat) : List Nat :=
  (entriesFrom s lineNum assetsPerLine 0).filter fun e =>
    decide ((s.entry e).type = .game)

theorem SameShape.entriesFrom
    {s s' : GmState} (h : SameShape s s') (lineNum todo i : Nat) :
    entriesFrom s' lineNum todo i = entriesFrom s lineNum todo i := by
  simp only [Games.entriesFrom, h.count, h.released]

/-- Past the end of the list a line has no entries. -/
theorem entriesFrom_past
    {s : GmState} {lineNum todo i : Nat}
    (h : lineNum * assetsPerLine + i ≥ s.gmEntryCount) :
    entriesFrom s lineNum todo i = [] := by
  simp only [entriesFrom, List.map_eq_nil_iff, List.filter_eq_nil_iff,
    List.mem_map, List.mem_range'_1]
  rintro _ ⟨j, hj, rfl⟩
  simp only [decide_eq_true_eq]
  omega

/-- The loop over a line visits its entries. -/
theorem gmLineLoop_eq
    {f : GmState → Nat → GmState} (hf : ∀ s e, SameShape s (f s e))
    (lineNum todo i : Nat) (s : GmState) :
    gmLineLoop f lineNum todo i s =
      (entriesFrom s lineNum todo i).foldl f s := by
  induction todo generalizing i s with
  | zero => rfl
  | succ todo ih =>
      rw [gmLineLoop]
      by_cases hend : lineNum * assetsPerLine + i ≥ s.gmEntryCount
      · rw [if_pos hend, entriesFrom_past hend]
        rfl
      · rw [if_neg hend, ih, (hf s _).entriesFrom]
        have hcons : entriesFrom s lineNum (todo + 1) i =
            (s.gmReleased + (lineNum * assetsPerLine + i)) ::
              entriesFrom s lineNum todo (i + 1) := by
          simp only [entriesFrom, List.range'_succ, List.map_cons]
          rw [List.filter_cons_of_pos (by simpa using hend), List.map_cons]
        rw [hcons]
        rfl

/-- Entries that are no games are passed over. -/
theorem foldl_games
    {f : GmState → Nat → GmState} (hf : ∀ s e, SameShape s (f s e))
    (l : List Nat) (s : GmState) :
    l.foldl (fun s e => if (s.entry e).type = .game then f s e else s) s =
      (l.filter fun e => decide ((s.entry e).type = .game)).foldl f s := by
  induction l generalizing s with
  | nil => rfl
  | cons e l ih =>
      rw [List.foldl_cons, ih]
      by_cases hgame : (s.entry e).type = .game
      · rw [if_pos hgame, List.filter_cons_of_pos (by simpa using hgame),
          List.foldl_cons]
        simp only [(hf s e).type]
      · rw [if_neg hgame, List.filter_cons_of_neg (by simpa using hgame)]

theorem gmEntryLoad_shape (s : GmState) (e : Nat) :
    SameShape s (gmEntryLoad s e) := by
  unfold gmEntryLoad
  split
  · exact gmBannerLoad_shape s e
  · exact .refl s

theorem gmEntryFree_shape (s : GmState) (e : Nat) :
    SameShape s (gmEntryFree s e) := by
  unfold gmEntryFree
  split
  · exact gmBannerFree_shape s e
  · exact .refl s

/-- `gm_line_load` loads the games of the line one after the other. -/
theorem gmLineLoad_eq (s : GmState) (lineNum : Nat) :
    gmLineLoad s lineNum = (lineGames s lineNum).foldl gmBannerLoad s := by
  unfold gmLineLoad lineGames
  rw [gmLineLoop_eq gmEntryLoad_shape]
  exact foldl_games gmBannerLoad_shape _ s

/-- `gm_line_free` frees the games of the line one after the other. -/
theorem gmLineFree_eq (s : GmState) (lineNum : Nat) :
    gmLineFree s lineNum = (lineGames s lineNum).foldl gmBannerFree s := by
  unfold gmLineFree lineGames
  rw [gmLineLoop_eq gmEntryFree_shape]
  exact foldl_games gmBannerFree_shape _ s

theorem foldl_shape
    {f : GmState → Nat → GmState} (hf : ∀ s e, SameShape s (f s e))
    (l : List Nat) (s : GmState) : SameShape s (l.foldl f s) := by
  induction l generalizing s with
  | nil => exact .refl s
  | cons e l ih => exact (hf s e).trans (ih (f s e))

theorem gmLineLoad_shape (s : GmState) (lineNum : Nat) :
    SameShape s (gmLineLoad s lineNum) := by
  rw [gmLineLoad_eq]
  exact foldl_shape gmBannerLoad_shape _ s

theorem gmLineFree_shape (s : GmState) (lineNum : Nat) :
    SameShape s (gmLineFree s lineNum) := by
  rw [gmLineFree_eq]
  exact foldl_shape gmBannerFree_shape _ s

theorem arqComplete_nextEntry (s : GmState) (i : Nat) :
    (arqComplete s i).nextEntry = s.nextEntry := by
  cases hp : s.arq[i]? with
  | none =>
      rw [arqComplete_none hp]
  | some p => exact (arqComplete_effect hp).shape.nextEntry

/-- No entry is visited twice. -/
theorem lineGames_nodup (s : GmState) (lineNum : Nat) :
    (lineGames s lineNum).Nodup := by
  unfold lineGames entriesFrom
  refine List.Nodup.filter _ (List.Nodup.map (fun a b h => by simpa using h) ?_)
  refine List.Nodup.filter _ (List.Nodup.map (fun a b h => by simpa using h) ?_)
  exact List.nodup_range'

/-- The games of a line are listed games. -/
theorem mem_lineGames
    {s : GmState} {lineNum e : Nat} (h : e ∈ lineGames s lineNum) :
    (s.entry e).type = .game ∧ s.gmReleased ≤ e ∧ e < s.nextEntry := by
  simp only [lineGames, entriesFrom, List.mem_filter, List.mem_map,
    decide_eq_true_eq] at h
  obtain ⟨⟨index, ⟨_, hindex⟩, rfl⟩, hgame⟩ := h
  refine ⟨hgame, by omega, ?_⟩
  unfold GmState.nextEntry
  omega

theorem gmBannerLoad_others
    {s : GmState} {e e' : Nat} (h : e' ≠ e) :
    (gmBannerLoad s e).banner e' = s.banner e' ∧
      (gmBannerLoad s e).inFlight e' = s.inFlight e' := by
  by_cases hst : (s.banner e).state = .none ∨ (s.banner e).state = .loaded
  · rw [gmBannerLoad_idle hst]
    exact ⟨rfl, rfl⟩
  · cases hslot : s.freeSlot with
    | none =>
        have heff := gmBannerLoad_exhausted hslot hst
        rw [heff.banner, Function.update_of_ne h]
        exact ⟨rfl, inFlight_congr heff.arq⟩
    | some k =>
        have heff := gmBannerLoad_effect hslot hst
        rw [heff.banner, Function.update_of_ne h, inFlight_append heff.arq,
          if_neg (Ne.symm h), List.append_nil]
        exact ⟨rfl, rfl⟩

/-- The state after `gm_banner_free`. -/
def freedState : GmLoadState → GmLoadState
  | .loaded => .unloaded
  | st => st

/-- `gm_banner_free` posts nothing, and changes one entry. -/
theorem gmBannerFree_entry (s : GmState) (e : Nat) :
    (gmBannerFree s e).arq = s.arq ∧
      ((gmBannerFree s e).banner e).state = freedState (s.banner e).state ∧
      ∀ e', e' ≠ e → (gmBannerFree s e).banner e' = s.banner e' := by
  have heffect : ∀ {b : GmBanner} {used : PoolSlot → Bool},
      Effect s (gmBannerFree s e) e b used s.arq →
      b.state = freedState (s.banner e).state →
      (gmBannerFree s e).arq = s.arq ∧
        ((gmBannerFree s e).banner e).state = freedState (s.banner e).state ∧
        ∀ e', e' ≠ e → (gmBannerFree s e).banner e' = s.banner e' := by
    intro b used heff hb
    refine ⟨heff.arq, ?_, fun e' he => ?_⟩
    · rw [heff.banner, Function.update_self, hb]
    · rw [heff.banner, Function.update_of_ne he]
  cases hst : (s.banner e).state with
  | none =>
      rw [gmBannerFree_idle (Or.inl hst), hst]
      exact ⟨rfl, rfl, fun _ _ => rfl⟩
  | unloading =>
      rw [gmBannerFree_idle (Or.inr hst), hst]
      exact ⟨rfl, rfl, fun _ _ => rfl⟩
  | setup =>
      have h := heffect (gmBannerFree_deferred (Or.inr hst)) (by simp [hst, freedState])
      rwa [hst] at h
  | loading =>
      have h := heffect (gmBannerFree_deferred (Or.inl hst)) (by simp [hst, freedState])
      rwa [hst] at h
  | unloaded =>
      have h := heffect (gmBannerFree_effect (Or.inl hst)) (by simp [hst, freedState])
      rwa [hst] at h
  | loaded =>
      have h := heffect (gmBannerFree_effect (Or.inr hst)) (by simp [hst, freedState])
      rwa [hst] at h

/-- Loading a list of entries leaves the others alone. -/
theorem foldl_load_others
    {l : List Nat} {s : GmState} {e : Nat} (h : e ∉ l) :
    (l.foldl gmBannerLoad s).banner e = s.banner e ∧
      (l.foldl gmBannerLoad s).inFlight e = s.inFlight e := by
  induction l generalizing s with
  | nil => exact ⟨rfl, rfl⟩
  | cons x l ih =>
      rw [List.mem_cons, not_or] at h
      obtain ⟨hx, hl⟩ := h
      obtain ⟨h₁, h₂⟩ := gmBannerLoad_others (s := s) hx
      obtain ⟨h₃, h₄⟩ := ih (s := gmBannerLoad s x) hl
      exact ⟨h₃.trans h₁, h₄.trans h₂⟩

/-- Freeing a list of entries posts nothing and leaves the others alone. -/
theorem foldl_free_others
    {l : List Nat} {s : GmState} :
    (l.foldl gmBannerFree s).arq = s.arq ∧
      ∀ e, e ∉ l → (l.foldl gmBannerFree s).banner e = s.banner e := by
  induction l generalizing s with
  | nil => exact ⟨rfl, fun _ _ => rfl⟩
  | cons x l ih =>
      obtain ⟨harq, _, hothers⟩ := gmBannerFree_entry s x
      obtain ⟨ih₁, ih₂⟩ := ih (s := gmBannerFree s x)
      refine ⟨ih₁.trans harq, fun e he => ?_⟩
      rw [List.mem_cons, not_or] at he
      obtain ⟨hx, hl⟩ := he
      exact (ih₂ e hl).trans (hothers e hx)

/-- Freeing a list of entries frees each of them. -/
theorem foldl_free_state
    {l : List Nat} {s : GmState} {e : Nat} (hnodup : l.Nodup) (he : e ∈ l) :
    ((l.foldl gmBannerFree s).banner e).state = freedState (s.banner e).state := by
  induction l generalizing s with
  | nil => cases he
  | cons x l ih =>
      obtain ⟨hx, hl⟩ := List.nodup_cons.1 hnodup
      obtain ⟨_, hstate, hothers⟩ := gmBannerFree_entry s x
      rcases List.mem_cons.1 he with rfl | hel
      · rw [List.foldl_cons, foldl_free_others.2 e hx, hstate]
      · have hne : e ≠ x := by
          rintro rfl
          exact hx hel
        rw [List.foldl_cons, ih hl hel, hothers e hne]

/-- The effect of publishing a new entry. -/
structure NewEntry
    (s s' : GmState) (b : GmBanner)
    (used : PoolSlot → Bool) (posts : List ArqPost) : Prop where
  banner : s'.banner = Function.update s.banner s.nextEntry b
  used : s'.used = used
  arq : s'.arq = posts
  type : ∀ e, e ≠ s.nextEntry → (s'.entry e).type = (s.entry e).type
  released : s'.gmReleased = s.gmReleased
  count : s'.gmEntryCount = s.gmEntryCount + 1

/-- A game whose banner is looked for. -/
def BannerWanted (f : ListedFile) : Prop :=
  f.path.type = .game ∧ f.outcome.info.valid = true ∧
    f.outcome.info.bnrOffset ≠ 0

/-- The banner of a new entry. -/
def placedBanner (aramOffset : Nat) (unload : Bool) (k : PoolSlot) : GmBanner :=
  { GmBanner.zero with
    aramOffset := aramOffset
    state := placedState unload
    buf := some k }

theorem gmCheckOther_effect (c : CheckState) (f : ListedFile) :
    NewEntry c.gm (gmCheckOther c f).gm .zero c.gm.used c.gm.arq := by
  refine ⟨?_, rfl, rfl, fun e he => ?_, rfl, rfl⟩
  · funext e
    show ((Function.update (Function.update c.gm.entry c.gm.nextEntry _)
      c.gm.nextEntry _) e).banner = _
    by_cases he : e = c.gm.nextEntry
    · rw [he, Function.update_self, Function.update_self]
      show ((Function.update c.gm.entry c.gm.nextEntry _) c.gm.nextEntry).banner = _
      rw [Function.update_self]
      rfl
    · rw [Function.update_of_ne he, Function.update_of_ne he,
        Function.update_of_ne he]
      rfl
  · show ((Function.update (Function.update c.gm.entry c.gm.nextEntry _)
      c.gm.nextEntry _) e).type = _
    rw [Function.update_of_ne he, Function.update_of_ne he]

/-- Publishing what an asset function has made of a new game. -/
theorem NewEntry.of_effect
    {s s₁ s' : GmState} {path : Path} {info : DolphinGameInfo} {b : GmBanner}
    {used : PoolSlot → Bool} {posts : List ArqPost} {useBanner : Bool}
    (hsame : SameList (gmNewGame s path info) s₁)
    (heff : Effect s₁ s' s.nextEntry b used posts) :
    NewEntry s (gmPublish s' useBanner) b used posts := by
  have hnext : s'.nextEntry = s.nextEntry := by
    unfold GmState.nextEntry
    rw [heff.released, heff.count, hsame.released, hsame.count]
    rfl
  have hentry : (gmPublish s' useBanner).entry =
      Function.update s'.entry s.nextEntry
        { s'.entry s.nextEntry with useBanner := useBanner } := by
    rw [← hnext]
    rfl
  refine ⟨?_, heff.used, heff.arq, fun e he => ?_, ?_, ?_⟩
  · funext e
    have hb := congrFun heff.banner e
    show ((gmPublish s' useBanner).entry e).banner = _
    rw [hentry]
    by_cases he : e = s.nextEntry
    · rw [he, Function.update_self, Function.update_self]
      rw [he, Function.update_self] at hb
      exact hb
    · rw [Function.update_of_ne he, Function.update_of_ne he]
      rw [Function.update_of_ne he, hsame.banner] at hb
      refine hb.trans ?_
      show ((Function.update s.entry s.nextEntry _) e).banner = _
      rw [Function.update_of_ne he]
      rfl
  · rw [hentry, Function.update_of_ne he, heff.type, hsame.entry]
    show ((Function.update s.entry s.nextEntry _) e).type = _
    rw [Function.update_of_ne he]
  · show s'.gmReleased = _
    rw [heff.released, hsame.released]
    rfl
  · show s'.gmEntryCount + 1 = _
    rw [heff.count, hsame.count]
    rfl

/-- The entry of a new game. -/
theorem gmNewGame_entry
    (s : GmState) (path : Path) (info : DolphinGameInfo) :
    (gmNewGame s path info).entry s.nextEntry =
      { GmFileEntry.zero with
        path := path, type := .game, extra := info.extra } :=
  Function.update_self ..

theorem gmNewGame_banner
    (s : GmState) (path : Path) (info : DolphinGameInfo) :
    (gmNewGame s path info).banner s.nextEntry = .zero := by
  show ((gmNewGame s path info).entry s.nextEntry).banner = _
  rw [gmNewGame_entry]
  rfl

theorem getGameInfo_same (s : GmState) (path : Path) (o : FileOutcome) :
    SameList s (getGameInfo s path o) ∧
      (getGameInfo s path o).nextEntry = s.nextEntry := by
  unfold getGameInfo
  split <;> exact ⟨⟨rfl, rfl, rfl, rfl, rfl⟩, rfl⟩

/-- A new game after its file has been examined. -/
theorem gmNewGame_same
    (s : GmState) (path : Path) (o : FileOutcome) :
    SameList (gmNewGame s path o.info)
      (gmNewGame (getGameInfo s path o) path o.info) := by
  unfold getGameInfo
  split <;> exact ⟨rfl, rfl, rfl, rfl, rfl⟩

/-- With a descriptor at hand a banner is always fetched. -/
theorem gmFetchBanner_open
    (s : GmState) (path : Path) (bnrOffset fd : Nat) (o : FileOutcome) :
    (gmFetchBanner s path bnrOffset (some fd) o).1 = true := by
  unfold gmFetchBanner
  split
  · rfl
  · rfl

section CheckFile

variable {c : CheckState} {f : ListedFile}

/-- The state in which the banner of a new game is placed. -/
theorem gmCheckGame_placing
    (h : f.outcome.info.bnrOffset ≠ 0) :
    ∃ s₁, SameList (gmNewGame c.gm f.path.path f.outcome.info) s₁ ∧
      (gmCheckGame c f).gm =
        gmPublish (gmPlaceBanner s₁ c.gm.nextEntry c.aramOffset
          (forceUnload c.gm f.topLineNum)).2 true := by
  obtain ⟨s₀, hs₀⟩ : ∃ s₀, s₀ =
      gmNewGame (getGameInfo c.gm f.path.path f.outcome) f.path.path
        f.outcome.info := ⟨_, rfl⟩
  have hnext := (getGameInfo_same c.gm f.path.path f.outcome).2
  have hsame₀ : SameList (gmNewGame c.gm f.path.path f.outcome.info) s₀ := by
    rw [hs₀]
    exact gmNewGame_same c.gm f.path.path f.outcome
  have hoffset : (s₀.entry c.gm.nextEntry).extra.dvdBnrOffset ≠ 0 := by
    rw [hsame₀.entry, gmNewGame_entry]
    exact h
  obtain ⟨r, hr⟩ : ∃ r, r = gmFetchBanner s₀ (s₀.entry c.gm.nextEntry).path
      (s₀.entry c.gm.nextEntry).extra.dvdBnrOffset (some f.outcome.gameFd)
      f.outcome := ⟨_, rfl⟩
  have hfetch : r.1 = true := by
    rw [hr]
    exact gmFetchBanner_open _ _ _ _ _
  have hsame : SameList s₀ r.2 := by
    rw [hr]
    exact gmFetchBanner_same _ _ _ _
  refine ⟨r.2, ⟨hsame.entry.trans hsame₀.entry, hsame.pool.trans hsame₀.pool,
    hsame.arq.trans hsame₀.arq, hsame.released.trans hsame₀.released,
    hsame.count.trans hsame₀.count⟩, ?_⟩
  have hload : gmLoadBanner s₀ c.gm.nextEntry c.aramOffset
      (forceUnload c.gm f.topLineNum) (some f.outcome.gameFd) f.outcome =
      gmPlaceBanner r.2 c.gm.nextEntry c.aramOffset
        (forceUnload c.gm f.topLineNum) := by
    unfold gmLoadBanner
    rw [if_neg hoffset, ← hr]
    obtain ⟨ok, s₁⟩ := r
    cases hfetch
    rfl
  rw [← hload, hs₀]
  unfold gmCheckGame
  simp only [hnext]

/-- A game that gets a buffer. -/
theorem gmCheckGame_effect
    (h : f.outcome.info.bnrOffset ≠ 0)
    {k : PoolSlot} (hslot : c.gm.freeSlot = some k) :
    NewEntry c.gm (gmCheckGame c f).gm
      (placedBanner c.aramOffset (forceUnload c.gm f.topLineNum) k)
      (Function.update c.gm.used k true)
      (c.gm.arq ++
        [⟨c.gm.nextEntry, placedCallback (forceUnload c.gm f.topLineNum),
          some k, c.aramOffset⟩]) := by
  obtain ⟨s₁, hsame, heq⟩ := gmCheckGame_placing (c := c) (f := f) h
  have hbanner : s₁.banner c.gm.nextEntry = .zero := by
    rw [hsame.banner, gmNewGame_banner]
  have hused : s₁.used = c.gm.used := hsame.used
  have harq : s₁.arq = c.gm.arq := hsame.arq
  have heff := gmPlaceBanner_effect (s := s₁) (e := c.gm.nextEntry)
    c.aramOffset (forceUnload c.gm f.topLineNum) (k := k)
    (by rw [hsame.freeSlot]; exact hslot)
  rw [hbanner, hused, harq] at heff
  rw [heq]
  exact NewEntry.of_effect hsame heff

/-- A game without a banner. -/
theorem gmCheckGame_without
    (h : f.outcome.info.bnrOffset = 0) :
    NewEntry c.gm (gmCheckGame c f).gm .zero c.gm.used c.gm.arq := by
  obtain ⟨s₀, hs₀⟩ : ∃ s₀, s₀ =
      gmNewGame (getGameInfo c.gm f.path.path f.outcome) f.path.path
        f.outcome.info := ⟨_, rfl⟩
  have hnext := (getGameInfo_same c.gm f.path.path f.outcome).2
  have hsame : SameList (gmNewGame c.gm f.path.path f.outcome.info) s₀ := by
    rw [hs₀]
    exact gmNewGame_same c.gm f.path.path f.outcome
  have hload : (gmLoadBanner s₀ c.gm.nextEntry c.aramOffset
      (forceUnload c.gm f.topLineNum) (some f.outcome.gameFd) f.outcome).2 =
      dvdCustomClose s₀ f.outcome.gameFd := by
    unfold gmLoadBanner
    rw [if_pos (by rw [hsame.entry, gmNewGame_entry]; exact h)]
    rfl
  have heq : (gmCheckGame c f).gm =
      gmPublish (dvdCustomClose s₀ f.outcome.gameFd) true := by
    rw [← hload, hs₀]
    unfold gmCheckGame
    simp only [hnext]
  have hbanner : s₀.banner c.gm.nextEntry = .zero := by
    rw [hsame.banner, gmNewGame_banner]
  rw [heq]
  refine NewEntry.of_effect hsame
    ⟨?_, hsame.used, hsame.arq, fun _ => rfl, rfl, rfl⟩
  show s₀.banner = _
  rw [← hbanner, Function.update_eq_self]

/-- A game that finds the pool exhausted. -/
theorem gmCheckGame_exhausted
    (h : f.outcome.info.bnrOffset ≠ 0) (hslot : c.gm.freeSlot = none) :
    NewEntry c.gm (gmCheckGame c f).gm { GmBanner.zero with state := .loading }
      c.gm.used c.gm.arq := by
  obtain ⟨s₁, hsame, heq⟩ := gmCheckGame_placing (c := c) (f := f) h
  have hbanner : s₁.banner c.gm.nextEntry = .zero := by
    rw [hsame.banner, gmNewGame_banner]
  have hused : s₁.used = c.gm.used := hsame.used
  have harq : s₁.arq = c.gm.arq := hsame.arq
  have heff := gmPlaceBanner_exhausted (s := s₁) (e := c.gm.nextEntry)
    c.aramOffset (forceUnload c.gm f.topLineNum)
    (by rw [hsame.freeSlot]; exact hslot)
  rw [hbanner, hused, harq] at heff
  rw [heq]
  exact NewEntry.of_effect hsame heff

end CheckFile

/-- One pass of the loop of `gm_check_files`, as an effect. -/
theorem gmCheckFile_cases
    (c : CheckState) (f : ListedFile) :
    (gmCheckFile c f).gm = c.gm ∨
      NewEntry c.gm (gmCheckFile c f).gm .zero c.gm.used c.gm.arq ∨
      (BannerWanted f ∧ gmCheckFile c f = gmCheckGame c f) := by
  unfold gmCheckFile
  split
  · split
    · rename_i htype hvalid
      by_cases hoffset : f.outcome.info.bnrOffset = 0
      · exact Or.inr (Or.inl (gmCheckGame_without hoffset))
      · exact Or.inr (Or.inr ⟨⟨htype, hvalid, hoffset⟩, rfl⟩)
    · exact Or.inl rfl
  · exact Or.inr (Or.inl (gmCheckOther_effect c f))
  · exact Or.inr (Or.inl (gmCheckOther_effect c f))
  · exact Or.inl rfl

/-- A pass of the enumeration makes at most one entry, and posts for no other. -/
theorem gmCheckFile_new
    (c : CheckState) (f : ListedFile) :
    (gmCheckFile c f).gm = c.gm ∨
      ∃ b used posts, NewEntry c.gm (gmCheckFile c f).gm b used posts ∧
        (posts = c.gm.arq ∨
          ∃ p : ArqPost, p.entry = c.gm.nextEntry ∧ posts = c.gm.arq ++ [p]) := by
  rcases gmCheckFile_cases c f with hsame | hzero | ⟨hwant, heq⟩
  · exact Or.inl hsame
  · exact Or.inr ⟨_, _, _, hzero, Or.inl rfl⟩
  · rw [heq]
    cases hslot : c.gm.freeSlot with
    | none =>
        exact Or.inr ⟨_, _, _, gmCheckGame_exhausted hwant.2.2 hslot, Or.inl rfl⟩
    | some k =>
        exact Or.inr ⟨_, _, _, gmCheckGame_effect hwant.2.2 hslot, Or.inr ⟨_, rfl, rfl⟩⟩

theorem NewEntry.nextEntry
    {s s' : GmState} {b : GmBanner} {used : PoolSlot → Bool} {posts : List ArqPost}
    (h : NewEntry s s' b used posts) : s'.nextEntry = s.nextEntry + 1 := by
  unfold GmState.nextEntry
  rw [h.released, h.count]
  omega

/-- A pass of the enumeration releases nothing. -/
theorem gmCheckFile_released
    (c : CheckState) (f : ListedFile) :
    (gmCheckFile c f).gm.gmReleased = c.gm.gmReleased := by
  rcases gmCheckFile_new c f with hsame | ⟨b, used, posts, hnew, _⟩
  · rw [hsame]
  · exact hnew.released

/-- A pass of the enumeration leaves the listed entries and their requests alone. -/
theorem gmCheckFile_others
    (c : CheckState) (f : ListedFile) :
    c.gm.nextEntry ≤ (gmCheckFile c f).gm.nextEntry ∧
      ∀ e < c.gm.nextEntry,
        (gmCheckFile c f).gm.banner e = c.gm.banner e ∧
          (gmCheckFile c f).gm.inFlight e = c.gm.inFlight e := by
  rcases gmCheckFile_new c f with hsame | ⟨b, used, posts, hnew, hposts⟩
  · rw [hsame]
    exact ⟨le_rfl, fun e _ => ⟨rfl, rfl⟩⟩
  · refine ⟨?_, fun e he => ⟨?_, ?_⟩⟩
    · rw [hnew.nextEntry]
      exact Nat.le_succ _
    · rw [hnew.banner, Function.update_of_ne (by omega)]
    · rcases hposts with hnone | ⟨p, hp, hone⟩
      · exact inFlight_congr (hnew.arq.trans hnone)
      · rw [inFlight_append (hnew.arq.trans hone), if_neg (by omega), List.append_nil]

end Games
end Cubiboot
