import Cubiboot.Games.Discard
import Cubiboot.Games.Prefetch

/-!
# Publishing while the list is scrolled

The user scrolls while `gm_check_files` is still publishing entries.  The enumeration
keeps the banners of one range of lines in the pool, the scroller those of another.
They differ by the line above the screen, which the enumeration does not keep, and by
one entry below the window, which it does.

Results: `ScrollInv.check`, `ScrollInv.move` and `ScrollInv.complete`, that the three
kinds of step keep the invariant, where a buffer is free for whatever is loaded;
`residency_agrees`, which entries each side keeps, and what is on the screen in every
state of such a run; `published_above_stays_unloaded`, the line that is not kept.
-/

namespace Cubiboot
namespace Games

open Runs Grid

/-- The game list, with the variables of the grid that its functions read. -/
structure ScrollState where
  gm : GmState
  topLineNum : Int
  numberOfLines : Int
  /-- Paths that `gm_check_files` has not come to yet. -/
  left : Nat

/-- What happens while a directory is enumerated and shown. -/
inductive ScrollEvent where
  /-- One pass of the loop of `gm_check_files`. -/
  | check (aramOffset : Nat) (f : ListedFile)
  /-- `gm_check_files` has ended, and `gm_setup_grid` gets the number of entries. -/
  | finish
  /-- A move of the list by one line. -/
  | move (delta : Int)
  /-- Completion of request number `i` of those in flight. -/
  | complete (i : Nat)

/-- The state after an event. -/
def ScrollEvent.apply (s : ScrollState) : ScrollEvent → ScrollState
  | .check aramOffset f =>
      { s with gm := (gmCheckFile ⟨s.gm, aramOffset, []⟩ f).gm, left := s.left - 1 }
  | .finish => { s with numberOfLines := gridLines s.gm.gmEntryCount, left := 0 }
  | .move delta =>
      { s with
        gm := gmLineChanged s.gm s.numberOfLines s.topLineNum delta
        topLineNum := s.topLineNum + delta }
  | .complete i => { s with gm := arqComplete s.gm i }

/--
When an event can happen.  During the enumeration the list ends four lines before the
last one.
-/
def ScrollEvent.Allowed (s : ScrollState) : ScrollEvent → Prop
  | .check _ f => 0 < s.left ∧ (f.topLineNum : Int) = s.topLineNum
  | .finish => True
  | .move delta =>
      (delta = 1 ∨ delta = -1) ∧ 0 ≤ s.topLineNum + delta ∧
        (s.left = 0 ∨ s.topLineNum + delta ≤ s.numberOfLines - 4)
  | .complete _ => True

/-- The step relation of the list on the screen. -/
def ScrollStep (s : ScrollState) (a : ScrollEvent) (s' : ScrollState) : Prop :=
  a.Allowed s ∧ s' = a.apply s

/-- A directory whose paths have been listed, before the first is checked. -/
structure FreshlyListed (s : ScrollState) : Prop where
  session : Session s.gm
  count : s.gm.gmEntryCount = 0
  top : s.topLineNum = 0
  lines : s.numberOfLines = gridLines s.left
  few : s.left ≤ 2000

/-- The banner is in the pool, or a request in flight will have brought it there. -/
def Present (s : GmState) (e : Nat) : Prop :=
  (s.banner e).state = .loaded ∨
    ((s.banner e).state = .setup ∨ (s.banner e).state = .loading) ∧ s.inFlight e ≠ []

/-- No game on the screen that has a banner stays unloaded. -/
def VisibleLoaded (s : ScrollState) : Prop :=
  ∀ e, s.gm.gmReleased ≤ e → e < s.gm.nextEntry → (s.gm.banner e).state ≠ .none →
    s.topLineNum ≤ lineOf s.gm e → lineOf s.gm e ≤ s.topLineNum + 3 → Present s.gm e

/-- The games of a list that a load takes a buffer for. -/
def needyOf (s : GmState) (l : List Nat) : List Nat :=
  l.filter fun e => decide ¬ ((s.banner e).state = .none ∨ (s.banner e).state = .loaded)

/--
The condition on a step.  No game is published in the line above the screen, and one
published in the window finds a free buffer; a line that is loaded has no banner still
being unloaded, and there are free buffers for it.
-/
def ScrollGuard (s : ScrollState) : ScrollEvent → Prop
  | .check _ f =>
      BannerWanted f →
        s.gm.gmEntryCount / assetsPerLine + 1 ≠ f.topLineNum ∧
          (InWindow f.topLineNum (s.gm.gmEntryCount / assetsPerLine : Nat) →
            s.gm.freeSlot ≠ none)
  | .finish => True
  | .move delta =>
      (∀ e ∈ gamesAt s.gm (loadedLine s.topLineNum delta), .unload ∉ s.gm.inFlight e) ∧
        (needyOf s.gm (gamesAt s.gm (loadedLine s.topLineNum delta))).length ≤
          s.gm.freeSlots.length
  | .complete _ => True

/-- The enumeration and the scroller agree on all entries but those of one line and one more. -/
theorem forceUnload_window_iff {s : GmState} {topLineNum : Nat}
    (hcount : s.gmEntryCount < 0x80000000)
    (htop : topLineNum * assetsPerLine < 0x80000000) :
    (forceUnload s topLineNum = false ↔
        InWindow topLineNum (s.gmEntryCount / assetsPerLine : Nat)) ↔
      s.gmEntryCount / assetsPerLine + 1 ≠ topLineNum ∧
        s.gmEntryCount ≠ topLineNum * assetsPerLine + assetsInitialCount := by
  rw [forceUnload_eq_false _ hcount htop]
  simp only [InWindow, assetsInitialCount, assetsPerLine] at *
  omega

section Steps

variable {s s' : GmState} {e : Nat} {l : List Nat}

/-- The banner is there or coming, and nothing will take it away. -/
def Staying (s : GmState) (e : Nat) : Prop :=
  (s.banner e).state = .none ∨ Present s e ∧ .unload ∉ s.inFlight e

theorem Staying.congr
    (h : Staying s e) (hbanner : s'.banner e = s.banner e)
    (hflight : s'.inFlight e = s.inFlight e) : Staying s' e := by
  rw [Staying, Present, hbanner, hflight]
  exact h

/-- With enough free buffers every load is served. -/
theorem loadsServed_of_room
    (hnodup : l.Nodup) (h : (needyOf s l).length ≤ s.freeSlots.length) :
    LoadsServed s l := by
  induction l generalizing s with
  | nil => trivial
  | cons e l ih =>
      obtain ⟨hel, hnodup'⟩ := List.nodup_cons.1 hnodup
      have hothers : needyOf (gmBannerLoad s e) l = needyOf s l := by
        refine List.filter_congr fun e' he' => ?_
        have hne : e' ≠ e := by
          rintro rfl
          exact hel he'
        rw [(gmBannerLoad_others hne).1]
      by_cases hst : (s.banner e).state = .none ∨ (s.banner e).state = .loaded
      · have hskip : needyOf s (e :: l) = needyOf s l :=
          List.filter_cons_of_neg (by rw [decide_eq_true_eq]; exact not_not.2 hst)
        refine ⟨fun hno => absurd hst hno, ?_⟩
        rw [hskip, ← hothers] at h
        refine ih hnodup' (h.trans ?_)
        rw [gmBannerLoad_idle hst]
      · have hneed : needyOf s (e :: l) = e :: needyOf s l :=
          List.filter_cons_of_pos (by rw [decide_eq_true_eq]; exact hst)
        rw [hneed, List.length_cons] at h
        cases hfree : s.freeSlots with
        | nil =>
            rw [hfree, List.length_nil] at h
            omega
        | cons k rest =>
            have hslot : s.freeSlot = some k := by
              rw [freeSlot_eq, hfree]
              rfl
            refine ⟨fun _ => by rw [hslot]; exact Option.some_ne_none k, ih hnodup' ?_⟩
            rw [hothers, freeSlots_take hfree (gmBannerLoad_effect hslot hst).used]
            rw [hfree, List.length_cons] at h
            omega

/-- Games of a line that is loaded stay. -/
theorem foldl_load_staying
    (hnodup : l.Nodup) (hserved : LoadsServed s l) (he : e ∈ l)
    (hunload : .unload ∉ s.inFlight e) : Staying (l.foldl gmBannerLoad s) e := by
  induction l generalizing s with
  | nil => exact absurd he List.not_mem_nil
  | cons x l ih =>
      obtain ⟨hxl, hnodup'⟩ := List.nodup_cons.1 hnodup
      obtain ⟨hslot, hserved'⟩ := hserved
      rw [List.foldl_cons]
      rcases List.mem_cons.1 he with rfl | hmem
      · obtain ⟨hbanner, hflight⟩ := foldl_load_others (s := gmBannerLoad s e) hxl
        refine Staying.congr ?_ hbanner hflight
        by_cases hst : (s.banner e).state = .none ∨ (s.banner e).state = .loaded
        · rw [gmBannerLoad_idle hst]
          exact hst.imp id fun hloaded => ⟨Or.inl hloaded, hunload⟩
        · cases hfree : s.freeSlot with
          | none => exact absurd hfree (hslot hst)
          | some k =>
              have heff := gmBannerLoad_effect hfree hst
              refine Or.inr ⟨Or.inr ⟨Or.inr ?_, ?_⟩, ?_⟩
              · rw [heff.banner, Function.update_self]
              · rw [inFlight_append heff.arq, if_pos rfl]
                simp
              · rw [inFlight_append heff.arq, if_pos rfl]
                simpa using hunload
      · have hne : e ≠ x := by
          rintro rfl
          exact hxl hmem
        refine ih hnodup' hserved' hmem ?_
        rw [(gmBannerLoad_others hne).2]
        exact hunload

/-- A completion leaves what stays. -/
theorem arqComplete_staying
    (h : Staying s e) (hquiet : (s.banner e).state = .none → s.inFlight e = []) (i : Nat) :
    Staying (arqComplete s i) e := by
  cases hp : s.arq[i]? with
  | none =>
      rw [arqComplete_none hp]
      exact h
  | some p =>
      have heff := arqComplete_effect hp
      obtain ⟨l, r, hflight, hleft⟩ := inFlight_erase (e := e) hp heff.arq
      by_cases he : e = p.entry
      · rw [if_pos he.symm] at hflight
        rcases h with hnone | ⟨-, hunload⟩
        · rw [hquiet hnone] at hflight
          have hlen := congrArg List.length hflight
          simp only [List.length_nil, List.length_append, List.length_singleton] at hlen
          omega
        · rw [hflight] at hunload
          simp only [List.mem_append, List.mem_singleton, not_or] at hunload
          refine Or.inr ⟨Or.inl ?_, ?_⟩
          · rw [heff.banner, he, Function.update_self]
            cases hcallback : p.callback with
            | setup => rfl
            | load => rfl
            | unload => exact absurd hcallback.symm hunload.1.2
          · rw [hleft, List.mem_append, not_or]
            exact ⟨hunload.1.1, hunload.2⟩
      · rw [if_neg (Ne.symm he), List.append_nil] at hflight
        refine h.congr ?_ ?_
        · rw [heff.banner, Function.update_of_ne he]
        · rw [hleft, hflight]

/-- Loads leave the requests of an entry without a banner alone. -/
theorem foldl_load_quiet
    (l : List Nat) (hnone : (s.banner e).state = .none) :
    (l.foldl gmBannerLoad s).inFlight e = s.inFlight e := by
  induction l generalizing s with
  | nil => rfl
  | cons x l ih =>
      rw [List.foldl_cons]
      by_cases hx : e = x
      · rw [← hx, gmBannerLoad_idle (Or.inl hnone)]
        exact ih hnone
      · obtain ⟨hbanner, hflight⟩ := gmBannerLoad_others (s := s) hx
        rw [ih (by rw [hbanner]; exact hnone), hflight]

theorem gmLineLoadAt_session {lineNum : Int} (h : Session s) :
    Session (gmLineLoadAt s lineNum) := by
  rw [gmLineLoadAt]
  by_cases hneg : lineNum < 0
  · rw [if_pos hneg]
    exact h
  · rw [if_neg hneg]
    exact h.step (.asset (.lineLoad _))

theorem gmLineFreeAt_session {lineNum : Int} (h : Session s) :
    Session (gmLineFreeAt s lineNum) := by
  rw [gmLineFreeAt]
  by_cases hneg : lineNum < 0
  · rw [if_pos hneg]
    exact h
  · rw [if_neg hneg]
    exact h.step (.asset (.lineFree _))

/-- A move is made of steps of the game list. -/
theorem gmLineChanged_session
    {lines delta : Int} (top : Int) (hdelta : delta = 1 ∨ delta = -1)
    (hfew : (s.gmEntryCount : Int) ≤ 8 * lines) (h : Session s) :
    Session (gmLineChanged s lines top delta) := by
  have hshape : SameShape s (gmLineLoadAt s (loadedLine top delta)) := by
    rw [gmLineLoadAt_eq]
    exact foldl_shape gmBannerLoad_shape _ s
  have heq : gmLineChanged s lines top delta =
      gmLineFreeAt (gmLineLoadAt s (loadedLine top delta)) (freedLine top delta) := by
    rw [gmLineChanged_eq hdelta hfew, gmLineFreeAt_eq, hshape.gamesAt, gmLineLoadAt_eq]
  rw [heq]
  exact gmLineFreeAt_session (gmLineLoadAt_session h)

end Steps

/-- The invariant of the list on the screen. -/
structure ScrollInv (s : ScrollState) : Prop where
  session : Session s.gm
  games : ∀ e, s.gm.gmReleased ≤ e → (s.gm.banner e).state ≠ .none →
    (s.gm.entry e).type = .game
  quiet : ∀ e, s.gm.gmReleased ≤ e → (s.gm.banner e).state = .none → s.gm.inFlight e = []
  few : (s.gm.gmEntryCount : Int) + s.left ≤ 8 * s.numberOfLines
  top : 0 ≤ s.topLineNum
  below : s.left = 0 ∨ s.topLineNum ≤ s.numberOfLines - 4 ∧ s.numberOfLines ≤ 250
  window : ∀ e, s.gm.gmReleased ≤ e → InWindow s.topLineNum (lineOf s.gm e) →
    Staying s.gm e

section Kept

variable {s s' : ScrollState}

theorem FreshlyListed.inv (h : FreshlyListed s) : ScrollInv s := by
  have hnone : ∀ e, s.gm.gmReleased ≤ e → (s.gm.banner e).state = .none := by
    intro e he
    refine h.session.fresh e ?_
    rw [GmState.nextEntry, h.count, Nat.add_zero]
    exact he
  have hlines := gridLines_ge s.left
  have henough := gridLines_enough s.left
  have hleft := h.few
  refine ⟨h.session, fun e he hno => absurd (hnone e he) hno, fun e he _ => ?_, ?_, ?_,
    Or.inr ⟨?_, ?_⟩, fun e he _ => Or.inl (hnone e he)⟩
  · refine List.map_eq_nil_iff.2 (List.filter_eq_nil_iff.2 fun p hp => ?_)
    have hlt := h.session.listed p hp
    rw [GmState.nextEntry, h.count, Nat.add_zero] at hlt
    simp only [decide_eq_true_eq]
    omega
  · rw [h.count, h.lines]
    omega
  · rw [h.top]
  · rw [h.top, h.lines]
    omega
  · rw [h.lines]
    simp only [gridLines]
    split <;> omega

/-- An entry without requests, since it does not exist yet. -/
theorem ScrollInv.next_quiet (h : ScrollInv s) : s.gm.inFlight s.gm.nextEntry = [] := by
  refine List.map_eq_nil_iff.2 (List.filter_eq_nil_iff.2 fun p hp => ?_)
  have hlt := h.session.listed p hp
  simp only [decide_eq_true_eq]
  omega

/-- A new entry that stays, or is not in the window. -/
theorem ScrollInv.publish
    {gm : GmState} {b : GmBanner} {used : PoolSlot → Bool} {posts : List ArqPost} {left : Nat}
    (h : ScrollInv s) (hsession : Session gm) (hleft : left + 1 = s.left)
    (hnew : NewEntry s.gm gm b used posts)
    (hothers : ∀ e < s.gm.nextEntry, gm.inFlight e = s.gm.inFlight e)
    (hgame : b.state ≠ .none → (gm.entry s.gm.nextEntry).type = .game)
    (hquiet : b.state = .none → gm.inFlight s.gm.nextEntry = [])
    (hstay : InWindow s.topLineNum (s.gm.gmEntryCount / assetsPerLine : Nat) →
      Staying gm s.gm.nextEntry) :
    ScrollInv { s with gm := gm, left := left } := by
  have hlast : ∀ e, s.gm.nextEntry < e → (gm.banner e).state = .none ∧ gm.inFlight e = [] := by
    intro e he
    have hnext : gm.nextEntry ≤ e := by
      rw [GmState.nextEntry, hnew.released, hnew.count]
      exact he
    refine ⟨hsession.fresh e hnext, ?_⟩
    refine List.map_eq_nil_iff.2 (List.filter_eq_nil_iff.2 fun p hp => ?_)
    have hlt := hsession.listed p hp
    simp only [decide_eq_true_eq]
    omega
  have hbelow := h.below
  have hfew := h.few
  refine ⟨hsession, fun e he hne => ?_, fun e he hnone => ?_, ?_, h.top, ?_,
    fun e he hline => ?_⟩
  · rw [hnew.released] at he
    by_cases heq : e = s.gm.nextEntry
    · rw [heq, hnew.banner, Function.update_self] at hne
      rw [heq]
      exact hgame hne
    · rw [hnew.banner, Function.update_of_ne heq] at hne
      rw [hnew.type e heq]
      exact h.games e he hne
  · rw [hnew.released] at he
    rcases Nat.lt_trichotomy e s.gm.nextEntry with hlt | heq | hgt
    · rw [hnew.banner, Function.update_of_ne (Nat.ne_of_lt hlt)] at hnone
      rw [hothers e hlt]
      exact h.quiet e he hnone
    · rw [heq, hnew.banner, Function.update_self] at hnone
      rw [heq]
      exact hquiet hnone
    · exact (hlast e hgt).2
  · show (gm.gmEntryCount : Int) + left ≤ 8 * s.numberOfLines
    rw [hnew.count]
    omega
  · show left = 0 ∨ s.topLineNum ≤ s.numberOfLines - 4 ∧ s.numberOfLines ≤ 250
    omega
  · have hline' : InWindow s.topLineNum (lineOf s.gm e) := by
      rw [lineOf] at hline ⊢
      rwa [hnew.released] at hline
    rw [hnew.released] at he
    rcases Nat.lt_trichotomy e s.gm.nextEntry with hlt | heq | hgt
    · refine (h.window e he hline').congr ?_ (hothers e hlt)
      rw [hnew.banner, Function.update_of_ne (Nat.ne_of_lt hlt)]
    · rw [heq]
      refine hstay ?_
      rw [heq, lineOf, GmState.nextEntry, Nat.add_sub_cancel_left] at hline'
      exact hline'
    · exact Or.inl (hlast e hgt).1

/-- One pass of the loop of `gm_check_files`. -/
theorem ScrollInv.check
    (h : ScrollInv s) {aramOffset : Nat} {f : ListedFile}
    (hallowed : (ScrollEvent.check aramOffset f).Allowed s)
    (hguard : ScrollGuard s (.check aramOffset f)) :
    ScrollInv ((ScrollEvent.check aramOffset f).apply s) := by
  obtain ⟨hleft, htop⟩ := hallowed
  have hsession : Session (gmCheckFile ⟨s.gm, aramOffset, []⟩ f).gm :=
    h.session.step (.asset (.enumerate aramOffset f))
  have hothers : ∀ e < s.gm.nextEntry,
      (gmCheckFile ⟨s.gm, aramOffset, []⟩ f).gm.inFlight e = s.gm.inFlight e :=
    fun e he => ((gmCheckFile_others ⟨s.gm, aramOffset, []⟩ f).2 e he).2
  have hone : s.left - 1 + 1 = s.left := Nat.succ_pred_eq_of_pos hleft
  rw [ScrollEvent.apply]
  rcases gmCheckFile_cases ⟨s.gm, aramOffset, []⟩ f with hsame | hnew | ⟨hwant, heq⟩
  · rw [hsame]
    refine ⟨h.session, h.games, h.quiet, ?_, h.top, ?_, h.window⟩
    · have hfew := h.few
      show (s.gm.gmEntryCount : Int) + (s.left - 1 : Nat) ≤ 8 * s.numberOfLines
      omega
    · have hbelow := h.below
      show s.left - 1 = 0 ∨ s.topLineNum ≤ s.numberOfLines - 4 ∧ s.numberOfLines ≤ 250
      omega
  · refine h.publish hsession hone hnew hothers (fun hno => absurd rfl hno) (fun _ => ?_)
      fun _ => Or.inl ?_
    · rw [inFlight_congr hnew.arq]
      exact h.next_quiet
    · rw [hnew.banner, Function.update_self]
      rfl
  · obtain ⟨habove, hroom⟩ := hguard hwant
    have hgame := gmCheckGame_type (c := ⟨s.gm, aramOffset, []⟩) (f := f) hwant.2.2
    rw [heq] at hsession hothers ⊢
    cases hslot : s.gm.freeSlot with
    | none =>
        have hnew := gmCheckGame_exhausted (c := ⟨s.gm, aramOffset, []⟩) (f := f)
          hwant.2.2 hslot
        refine h.publish hsession hone hnew hothers (fun _ => hgame) (fun hno => ?_)
          fun hline => ?_
        · cases hno
        · rw [← htop] at hline
          exact absurd hslot (hroom hline)
    | some k =>
        have hnew := gmCheckGame_effect (c := ⟨s.gm, aramOffset, []⟩) (f := f)
          hwant.2.2 hslot
        refine h.publish hsession hone hnew hothers (fun _ => hgame) (fun hno => ?_)
          fun hline => ?_
        · cases hforce : forceUnload s.gm f.topLineNum <;> simp [placedBanner, placedState,
            hforce] at hno
        · have hfew := h.few
          have hbelow := h.below
          have hkept : forceUnload s.gm f.topLineNum = false := by
            rw [← htop] at hline
            refine (forceUnload_eq_false _ (by omega) ?_).2 ?_
            · simp only [assetsPerLine]
              omega
            · simp only [InWindow, assetsPerLine, assetsInitialCount] at habove hline ⊢
              omega
          have hflight := inFlight_append (e := s.gm.nextEntry) hnew.arq
          rw [hkept] at hnew hflight
          refine Or.inr ⟨Or.inr ⟨Or.inl ?_, ?_⟩, ?_⟩
          · rw [hnew.banner, Function.update_self]
            rfl
          · rw [hflight, if_pos rfl]
            simp
          · rw [hflight, if_pos rfl, h.next_quiet]
            simp [placedCallback]

/-- A move of the list by one line. -/
theorem ScrollInv.move
    (h : ScrollInv s) {delta : Int} (hallowed : (ScrollEvent.move delta).Allowed s)
    (hguard : ScrollGuard s (.move delta)) :
    ScrollInv ((ScrollEvent.move delta).apply s) := by
  obtain ⟨hdelta, hlow, hhigh⟩ := hallowed
  obtain ⟨hunload, hroom⟩ := hguard
  have hfew : (s.gm.gmEntryCount : Int) ≤ 8 * s.numberOfLines := by
    have := h.few
    omega
  have hsession := gmLineChanged_session s.topLineNum hdelta hfew h.session
  obtain ⟨loaded, hloaded⟩ : ∃ loaded, loaded =
      (gamesAt s.gm (loadedLine s.topLineNum delta)).foldl gmBannerLoad s.gm := ⟨_, rfl⟩
  obtain ⟨moved, hmoved⟩ : ∃ moved, moved =
      gmLineChanged s.gm s.numberOfLines s.topLineNum delta := ⟨_, rfl⟩
  have heq : moved = (gamesAt s.gm (freedLine s.topLineNum delta)).foldl gmBannerFree
      loaded := by
    rw [hmoved, hloaded]
    exact gmLineChanged_eq hdelta hfew
  have hflight : ∀ e, moved.inFlight e = loaded.inFlight e := by
    intro e
    refine inFlight_congr ?_
    rw [heq]
    exact foldl_free_others.1
  have hshape : SameShape s.gm moved := by
    rw [heq, hloaded]
    exact (foldl_shape gmBannerLoad_shape _ _).trans (foldl_shape gmBannerFree_shape _ _)
  have hstarted : ∀ e, (moved.banner e).state = .none ↔ (s.gm.banner e).state = .none := by
    intro e
    rw [heq, hloaded, foldl_free_started, foldl_load_started]
  rw [ScrollEvent.apply, ← hmoved]
  rw [← hmoved] at hsession
  refine ⟨hsession, fun e he hne => ?_, fun e he hnone => ?_, ?_, hlow, ?_,
    fun e he hline => ?_⟩
  · rw [hshape.released] at he
    rw [hshape.type]
    exact h.games e he fun hno => hne ((hstarted e).2 hno)
  · rw [hshape.released] at he
    have hbefore := (hstarted e).1 hnone
    rw [hflight, hloaded, foldl_load_quiet _ hbefore]
    exact h.quiet e he hbefore
  · show (moved.gmEntryCount : Int) + s.left ≤ 8 * s.numberOfLines
    rw [hshape.count]
    exact h.few
  · have hbelow := h.below
    show s.left = 0 ∨
      s.topLineNum + delta ≤ s.numberOfLines - 4 ∧ s.numberOfLines ≤ 250
    omega
  · rw [hshape.released] at he
    rw [hshape.lineOf] at hline
    obtain ⟨hbefore, hnot⟩ := (inWindow_move hdelta _).1 hline
    have hkeep : moved.banner e = loaded.banner e := by
      rw [heq]
      exact foldl_free_others.2 e fun hmem => hnot (mem_gamesAt.1 hmem).2.2.2
    refine Staying.congr ?_ hkeep (hflight e)
    by_cases hmem : e ∈ gamesAt s.gm (loadedLine s.topLineNum delta)
    · rw [hloaded]
      exact foldl_load_staying gamesAt_nodup (loadsServed_of_room gamesAt_nodup hroom) hmem
        (hunload e hmem)
    · obtain ⟨hbanner, hflight'⟩ := foldl_load_others (s := s.gm) hmem
      rw [← hloaded] at hbanner hflight'
      rcases hbefore with hin | hload
      · exact (h.window e he hin).congr hbanner hflight'
      · refine Or.inl ?_
        rw [hbanner]
        by_contra hne
        refine hmem (mem_gamesAt.2 ⟨h.games e he hne, he, ?_, hload⟩)
        by_contra hno
        exact hne (h.session.fresh e (Nat.le_of_not_lt hno))

/-- The completion of a request. -/
theorem ScrollInv.complete (h : ScrollInv s) (i : Nat) :
    ScrollInv ((ScrollEvent.complete i).apply s) := by
  rw [ScrollEvent.apply]
  have hsession : Session (arqComplete s.gm i) := h.session.step (.asset (.complete i))
  cases hp : s.gm.arq[i]? with
  | none =>
      rw [arqComplete_none hp]
      exact h
  | some p =>
      have heff := arqComplete_effect hp
      have hshape := heff.shape
      -- an entry without a banner has no request that could complete
      have hstarted : ∀ e, s.gm.gmReleased ≤ e →
          ((arqComplete s.gm i).banner e).state = .none →
          (s.gm.banner e).state = .none ∧ e ≠ p.entry := by
        intro e he hnone
        by_cases heq : e = p.entry
        · rw [heq, heff.banner, Function.update_self] at hnone
          cases hcallback : p.callback <;> rw [hcallback] at hnone <;> cases hnone
        · rw [heff.banner, Function.update_of_ne heq] at hnone
          exact ⟨hnone, heq⟩
      have hrequest : p.callback ∈ s.gm.inFlight p.entry := by
        refine List.mem_map.2 ⟨p, List.mem_filter.2 ⟨List.mem_of_getElem? hp, ?_⟩, rfl⟩
        simp
      refine ⟨hsession, fun e he hne => ?_, fun e he hnone => ?_, ?_, h.top, h.below,
        fun e he hline => ?_⟩
      · rw [hshape.released] at he
        rw [hshape.type]
        refine h.games e he fun hno => ?_
        by_cases heq : e = p.entry
        · rw [heq] at he hno
          rw [h.quiet p.entry he hno] at hrequest
          cases hrequest
        · rw [heff.banner, Function.update_of_ne heq] at hne
          exact hne hno
      · rw [hshape.released] at he
        obtain ⟨hbefore, hother⟩ := hstarted e he hnone
        obtain ⟨l, r, hflight, hleft⟩ := inFlight_erase (e := e) hp heff.arq
        rw [if_neg (Ne.symm hother), List.append_nil] at hflight
        rw [hleft, ← hflight]
        exact h.quiet e he hbefore
      · show ((arqComplete s.gm i).gmEntryCount : Int) + s.left ≤ 8 * s.numberOfLines
        rw [hshape.count]
        exact h.few
      · rw [hshape.released] at he
        rw [hshape.lineOf] at hline
        exact arqComplete_staying (h.window e he hline) (h.quiet e he) i

/-- Every step whose guard holds keeps the invariant. -/
theorem ScrollStep.inv
    {a : ScrollEvent} (h : ScrollInv s) (hguard : ScrollGuard s a) (hs : ScrollStep s a s') :
    ScrollInv s' := by
  obtain ⟨hallowed, rfl⟩ := hs
  cases a with
  | check aramOffset f => exact h.check hallowed hguard
  | finish =>
      refine ⟨h.session, h.games, h.quiet, ?_, h.top, Or.inl rfl, h.window⟩
      have henough := gridLines_enough s.gm.gmEntryCount
      show (s.gm.gmEntryCount : Int) + (0 : Nat) ≤ 8 * gridLines s.gm.gmEntryCount
      omega
  | move delta => exact h.move hallowed hguard
  | complete i => exact h.complete i

theorem ScrollInv.visibleLoaded (h : ScrollInv s) : VisibleLoaded s := by
  intro e he _ hbanner hfrom hto
  have hline : InWindow s.topLineNum (lineOf s.gm e) := by
    simp only [InWindow]
    omega
  rcases h.window e he hline with hnone | ⟨hpresent, -⟩
  · exact absurd hnone hbanner
  · exact hpresent

end Kept

/--
The enumeration keeps an entry in the pool just when its line is in the window of the
scroller, but for the line above the screen and one entry below the window; and in every
run whose steps all meet `ScrollGuard`, no game on the screen stays unloaded.
-/
theorem residency_agrees (gm : GmState) (topLineNum : Nat) (s : ScrollState) :
    (gm.gmEntryCount < 0x80000000 → topLineNum * assetsPerLine < 0x80000000 →
        ((forceUnload gm topLineNum = false ↔
            InWindow topLineNum (gm.gmEntryCount / assetsPerLine : Nat)) ↔
          gm.gmEntryCount / assetsPerLine + 1 ≠ topLineNum ∧
            gm.gmEntryCount ≠ topLineNum * assetsPerLine + assetsInitialCount)) ∧
      (Reachable FreshlyListed (Guarded ScrollStep ScrollGuard) s → VisibleLoaded s) :=
  ⟨forceUnload_window_iff, fun h =>
    (h.invariant (fun _ => FreshlyListed.inv)
      fun _ _ hinv ⟨_, hguard, hs⟩ => hs.inv hinv hguard).visibleLoaded⟩

/-- A directory of 64 paths, before the first is checked. -/
def manyListed : ScrollState := ⟨.blank, 0, 8, 64⟩

theorem manyListed_listed : FreshlyListed manyListed :=
  ⟨.start blank_empty, rfl, rfl, rfl, by decide⟩

/-- The first game is published, and the list goes down by two lines, away from it. -/
def scrolledAway : ScrollState :=
  (ScrollEvent.move 1).apply ((ScrollEvent.move 1).apply
    ((ScrollEvent.complete 0).apply ((ScrollEvent.check aramStart sampleGame).apply manyListed)))

/-- The list comes back, and the second game is published. -/
def scrolledBack : ScrollState :=
  (ScrollEvent.check aramStart sampleGame).apply
    ((ScrollEvent.move (-1)).apply ((ScrollEvent.move (-1)).apply scrolledAway))

/-- Publishing and scrolling in turn, each step under its guard. -/
theorem scrolledBack_reachable :
    Reachable FreshlyListed (Guarded ScrollStep ScrollGuard) scrolledBack := by
  have haway : Reachable FreshlyListed (Guarded ScrollStep ScrollGuard) scrolledAway :=
    ((((Reachable.start manyListed_listed).step
      ⟨.check aramStart sampleGame, fun _ => ⟨by decide, fun _ => by decide +kernel⟩,
        ⟨by decide, rfl⟩, rfl⟩).step
      ⟨.complete 0, trivial, trivial, rfl⟩).step
      ⟨.move 1, ⟨by decide +kernel, by decide +kernel⟩,
        ⟨Or.inl rfl, by decide, Or.inr (by decide)⟩, rfl⟩).step
      ⟨.move 1, ⟨by decide +kernel, by decide +kernel⟩,
        ⟨Or.inl rfl, by decide, Or.inr (by decide)⟩, rfl⟩
  exact ((haway.step
    ⟨.move (-1), ⟨by decide +kernel, by decide +kernel⟩,
      ⟨Or.inr rfl, by decide, Or.inr (by decide)⟩, rfl⟩).step
    ⟨.move (-1), ⟨by decide +kernel, by decide +kernel⟩,
      ⟨Or.inr rfl, by decide, Or.inr (by decide)⟩, rfl⟩).step
    ⟨.check aramStart sampleGame,
      fun _ => ⟨by decide +kernel, fun _ => by decide +kernel⟩, ⟨by decide +kernel, rfl⟩, rfl⟩

/-- The banner that was dropped is on its way back when it is on the screen again. -/
theorem residency_agrees_scrolled :
    (forceUnload scrolledBack.gm 0 = false ↔ InWindow (0 : Nat) (0 : Nat)) ∧
      (scrolledAway.gm.banner 0).state = .unloaded ∧ scrolledBack.gm.gmEntryCount = 2 ∧
        VisibleLoaded scrolledBack := by
  have hcount : scrolledBack.gm.gmEntryCount = 2 := by decide +kernel
  obtain ⟨hrange, hvisible⟩ := residency_agrees scrolledBack.gm 0 scrolledBack
  rw [hcount] at hrange
  exact ⟨(hrange (by decide) (by decide)).2 (by decide), by decide +kernel, hcount,
    hvisible scrolledBack_reachable⟩

/-- A directory of 40 paths, before the first is checked. -/
def fortyListed : ScrollState := ⟨.blank, 0, 5, 40⟩

theorem fortyListed_listed : FreshlyListed fortyListed :=
  ⟨.start blank_empty, rfl, rfl, rfl, by decide⟩

/-- The list is moved down by one line, before the first game is published. -/
def movedDown : ScrollState :=
  (ScrollEvent.move 1).apply fortyListed

/-- The first game is published, and its request completes. -/
def publishedAbove : ScrollState :=
  (ScrollEvent.complete 0).apply
    ((ScrollEvent.check aramStart { sampleGame with topLineNum := 1 }).apply movedDown)

/-- The list is moved up again. -/
def movedUp : ScrollState :=
  (ScrollEvent.move (-1)).apply publishedAbove

/--
The user moves down before the first game is published, and up again.  The game is
published in the window and is not kept; it is on the screen then, and stays unloaded.
-/
theorem published_above_stays_unloaded :
    Reachable FreshlyListed (anyStep ScrollStep) movedUp ∧
      movedDown.gm.gmEntryCount = 0 ∧ movedDown.topLineNum = 1 ∧
      InWindow movedDown.topLineNum (movedDown.gm.gmEntryCount / assetsPerLine : Nat) ∧
      forceUnload movedDown.gm 1 = true ∧
      movedUp.topLineNum = 0 ∧ (movedUp.gm.banner 0).state = .unloaded ∧
      movedUp.gm.arq = [] ∧ ¬ VisibleLoaded movedUp := by
  have hstate : (movedUp.gm.banner 0).state = .unloaded := by decide +kernel
  refine ⟨?_, rfl, rfl, by decide +kernel, by decide +kernel, rfl, hstate, by decide +kernel,
    fun h => ?_⟩
  · exact ((((Reachable.start fortyListed_listed).step
      ⟨.move 1, ⟨Or.inl rfl, by decide, Or.inr (by decide)⟩, rfl⟩).step
      ⟨.check aramStart { sampleGame with topLineNum := 1 }, ⟨by decide, rfl⟩, rfl⟩).step
      ⟨.complete 0, trivial, rfl⟩).step
      ⟨.move (-1), ⟨Or.inr rfl, by decide, Or.inr (by decide)⟩, rfl⟩
  · have hpresent := h 0 (by decide +kernel) (by decide +kernel) (by rw [hstate]; decide)
      (by decide +kernel) (by decide +kernel)
    rw [Present, hstate] at hpresent
    rcases hpresent with hno | ⟨hno | hno, -⟩ <;> cases hno

end Games
end Cubiboot
