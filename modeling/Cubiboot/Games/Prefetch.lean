import Cubiboot.Games.Scrolling
import Cubiboot.Games.Stranded
import Mathlib.Order.Interval.Finset.Nat

/-!
# The window of loaded lines

A directory is enumerated with the list at its top, and is then scrolled line by
line, each move being followed by the completion of its requests.  The first choice
of banners, made by `gm_check_files`, and the moves of `gm_line_changed` agree: the
lines around the screen are always loaded.

The pool is shared with the buffers that earlier directories have left taken.

Results: `Enumerating.next`, a pass of the enumeration, and `Enumerating.complete`, the
completion of a request meanwhile; `Windowed.loads` and `Windowed.move`, a move and what
it loads; and `window_prefetched`, the lines around the screen after any number of
moves.
-/

namespace Cubiboot
namespace Games

open SlotPool Runs Grid

/-- The states of an enumeration, with the list at its top. -/
inductive Enumerated (s₀ : GmState) : GmState → Prop where
  | start : Enumerated s₀ s₀
  | check {s : GmState} (aramOffset : Nat) (f : ListedFile) (h : Enumerated s₀ s)
      (htop : f.topLineNum = 0) : Enumerated s₀ (gmCheckFile ⟨s, aramOffset, []⟩ f).gm
  | complete {s : GmState} (i : Nat) (h : Enumerated s₀ s) : Enumerated s₀ (arqComplete s i)

/--
The states of the list `s₁` while it is scrolled, with the first line on the screen.
The requests of a move complete before the next one.
-/
inductive Scrolled (s₁ : GmState) : GmState → Int → Prop where
  | start : Scrolled s₁ s₁ 0
  | move {s s' : GmState} {top : Int} (delta : Int) (h : Scrolled s₁ s top)
      (hdelta : delta = 1 ∨ delta = -1)
      (hlow : 0 ≤ top + delta) (hhigh : top + delta ≤ listLines s₁ - 4)
      (hdrains : Drains (gmLineChanged s (listLines s₁) top delta) s') :
      Scrolled s₁ s' (top + delta)

/-- The buffers that are taken. -/
def taken (s : GmState) : Finset PoolSlot :=
  Finset.univ.filter fun k => s.used k = true

/-- The entries with a banner in the eight lines from the one above the screen on. -/
def crowd (s : GmState) (top : Int) : Finset Nat :=
  (Finset.range s.nextEntry).filter fun e =>
    s.gmReleased ≤ e ∧ (s.banner e).state ≠ .none ∧
      top - 1 ≤ lineOf s e ∧ lineOf s e ≤ top + 6

/-- The banner is loaded, in a buffer that no other entry holds. -/
def OwnBuffer (s : GmState) (e : Nat) : Prop :=
  (s.banner e).state = .loaded ∧
    ∃ k, (s.banner e).buf = some k ∧ s.used k = true ∧
      ∀ e', s.gmReleased ≤ e' → e' ≠ e → (s.banner e').holds ≠ some k

/-- The games of `s₁` that have a banner are loaded in the lines around the screen. -/
def WindowLoaded (s₁ s : GmState) (top : Int) : Prop :=
  ∀ e, s₁.gmReleased ≤ e → e < s₁.nextEntry → (s₁.banner e).state ≠ .none →
    max 0 (top - 1) ≤ lineOf s₁ e → lineOf s₁ e ≤ min (listLines s₁ - 1) (top + 5) →
      OwnBuffer s e

/-- No move that can be made next finds the pool exhausted. -/
def MovesServed (s₁ s : GmState) (top : Int) : Prop :=
  ∀ delta, delta = 1 ∨ delta = -1 → 0 ≤ top + delta → top + delta ≤ listLines s₁ - 4 →
    LoadsServed s (gamesAt s (loadedLine top delta))

theorem Session.fresh {s : GmState} (h : Session s) : Fresh s := by
  obtain ⟨s₀, h₀, hrun⟩ := h
  induction hrun with
  | refl => exact h₀.owned.2
  | @tail s s' hrun hs ih =>
      cases hs with
      | asset a =>
          cases a with
          | enumerate aramOffset f =>
              show Fresh (gmCheckFile ⟨s, aramOffset, []⟩ f).gm
              rcases gmCheckFile_new ⟨s, aramOffset, []⟩ f with hsame | ⟨b, used, posts, hnew, _⟩
              · rw [hsame]
                exact ih
              · exact ih.next hnew
          | lineLoad lineNum =>
              show Fresh (gmLineLoad s lineNum)
              rw [gmLineLoad_eq]
              exact ih.foldl
                (fun s e h he => ⟨h.load he, (gmBannerLoad_shape s e).nextEntry⟩)
                (fun e he => (mem_lineGames he).2.2)
          | lineFree lineNum =>
              show Fresh (gmLineFree s lineNum)
              rw [gmLineFree_eq]
              exact ih.foldl
                (fun s e h he => ⟨h.free he, (gmBannerFree_shape s e).nextEntry⟩)
                (fun e he => (mem_lineGames he).2.2)
          | complete i =>
              show Fresh (arqComplete s i)
              cases hp : s.arq[i]? with
              | none =>
                  rw [arqComplete_none hp]
                  exact ih
              | some p =>
                  have hlisted : RequestsListed s := Session.listed ⟨s₀, h₀, hrun⟩
                  exact ih.effect (arqComplete_effect hp)
                    (hlisted p (List.mem_of_getElem? hp))
      | startThread =>
          intro e he
          have hnext : s.nextEntry ≤ e := he
          have hnot : e ∉ releasedGames s := by
            intro hmem
            have hlt := (List.mem_range'_1.1 (List.mem_filter.1 hmem).1).2
            exact absurd hnext (Nat.not_le_of_lt hlt)
          rw [gmStartThread_eq]
          show (((releasedGames s).foldl gmBannerFree s).banner e).state = .none
          rw [foldl_free_others.2 e hnot]
          exact ih e hnext

section Enumeration

variable {s s' s₀ s₁ : GmState} {stranded : Finset PoolSlot} {top : Int}

theorem mem_taken {k : PoolSlot} : k ∈ taken s ↔ s.used k = true := by
  simp [taken]

/-- An empty list over the buffers that are taken. -/
theorem Kept.empty
    (hfresh : Fresh s) (hcount : s.gmEntryCount = 0) (harq : s.arq = []) :
    Kept s (taken s) := by
  have hnone : ∀ e, s.gmReleased ≤ e → (s.banner e).state = .none := by
    intro e he
    refine hfresh e ?_
    rw [GmState.nextEntry, hcount, Nat.add_zero]
    exact he
  have hentries : ∀ e, clientHolds s (taken s) (.inl e) = none := by
    intro e
    rw [clientHolds]
    by_cases he : s.gmReleased ≤ e
    · rw [if_pos he, GmBanner.holds_idle (Or.inl (hnone e he))]
    · rw [if_neg he]
  have hslots : ∀ k k', clientHolds s (taken s) (.inr k) = some k' ↔
      k = k' ∧ s.used k = true := by
    intro k k'
    rw [clientHolds]
    by_cases hk : k ∈ taken s
    · rw [if_pos hk, Option.some.injEq]
      exact ⟨fun h => ⟨h, mem_taken.1 hk⟩, fun h => h.1⟩
    · rw [if_neg hk]
      exact ⟨fun h => absurd h (by simp), fun h => absurd (mem_taken.2 h.2) hk⟩
  refine
    { accounts := ⟨fun c c' k hc hc' => ?_, fun k => ⟨fun hk => ?_, fun hk => ?_⟩⟩
      requests := fun e he => ?_
      listed := fun p hp => ?_
      fresh := hfresh
      buffered := fun e he _ => Or.inl (hnone e he)
      games := fun e he hno => absurd (hnone e he) hno }
  · cases c with
    | inl e => rw [hentries] at hc; cases hc
    | inr j =>
        cases c' with
        | inl e => rw [hentries] at hc'; cases hc'
        | inr j' => rw [((hslots j k).1 hc).1, ((hslots j' k).1 hc').1]
  · exact ⟨.inr k, (hslots k k).2 ⟨rfl, hk⟩⟩
  · obtain ⟨c, hc⟩ := hk
    cases c with
    | inl e => rw [hentries] at hc; cases hc
    | inr j =>
        obtain ⟨heq, hused⟩ := (hslots j k).1 hc
        rw [← heq]
        exact hused
  · rw [GmState.inFlight, harq, GmBanner.waitsFor, hnone e he]
    cases (s.banner e).buf <;> rfl
  · rw [harq] at hp
    cases hp

/-- With no request in flight every banner is ready. -/
theorem Kept.ready
    (h : Kept s stranded) (harq : s.arq = []) {e : Nat} (he : s.gmReleased ≤ e) :
    (s.banner e).Ready := by
  have hwaits := h.requests e he
  rw [GmState.inFlight, harq, GmBanner.waitsFor] at hwaits
  have hbuffered := h.buffered e he
  cases hbuf : (s.banner e).buf with
  | none =>
      rcases hbuffered hbuf with hst | hst | hst
      · exact Or.inl hst
      · exact Or.inr (Or.inr (Or.inl hst))
      · exact Or.inr (Or.inr (Or.inr ⟨hst, hbuf⟩))
  | some k =>
      rw [hbuf] at hwaits
      cases hst : (s.banner e).state with
      | none => exact Or.inl hst
      | loaded => exact Or.inr (Or.inl hst)
      | unloaded => exact Or.inr (Or.inr (Or.inl hst))
      | setup => rw [hst] at hwaits; cases hwaits
      | loading => rw [hst] at hwaits; cases hwaits
      | unloading => rw [hst] at hwaits; cases hwaits

theorem mem_crowd {e : Nat} :
    e ∈ crowd s top ↔ e < s.nextEntry ∧ s.gmReleased ≤ e ∧ (s.banner e).state ≠ .none ∧
      top - 1 ≤ lineOf s e ∧ lineOf s e ≤ top + 6 := by
  simp only [crowd, Finset.mem_filter, Finset.mem_range]

/-- Eight lines have at most 64 entries. -/
theorem crowd_card_le (s : GmState) (top : Int) : (crowd s top).card ≤ 64 := by
  have hsub : crowd s top ⊆
      Finset.Ico (s.gmReleased + (8 * (top - 1)).toNat)
        (s.gmReleased + (8 * (top - 1)).toNat + (64 - (8 * (1 - top)).toNat)) := by
    intro e he
    obtain ⟨-, hreleased, -, hfrom, hto⟩ := mem_crowd.1 he
    simp only [lineOf, assetsPerLine] at hfrom hto
    rw [Finset.mem_Ico]
    omega
  refine (Finset.card_le_card hsub).trans ?_
  rw [Nat.card_Ico]
  omega

theorem crowd_mono
    (hreleased : s'.gmReleased = s.gmReleased) (hnext : s.nextEntry ≤ s'.nextEntry)
    (hstarted : ∀ e < s.nextEntry, (s.banner e).state ≠ .none →
      (s'.banner e).state ≠ .none) :
    crowd s top ⊆ crowd s' top := by
  intro e he
  obtain ⟨hlt, hlisted, hne, hlines⟩ := mem_crowd.1 he
  refine mem_crowd.2 ⟨Nat.lt_of_lt_of_le hlt hnext, ?_, hstarted e hlt hne, ?_⟩
  · rw [hreleased]
    exact hlisted
  · rw [lineOf, hreleased]
    exact hlines

/-- What the enumeration makes of the banner of entry number `i`. -/
def EnumBanner (i : Nat) (b : GmBanner) : Prop :=
  b.state = .none ∨
    (i ≤ assetsInitialCount ∧ (b.state = .setup ∨ b.state = .loaded)) ∨
    (assetsInitialCount < i ∧
      (b.state = .unloading ∨ b.state = .unloaded ∨ b.state = .loading ∧ b.buf = none))

theorem EnumBanner.settles {i : Nat} {b b' : GmBanner}
    (h : EnumBanner i b) (hs : Settles b b') : EnumBanner i b' := by
  rcases hs with rfl | ⟨hbuf, ⟨hst, rfl⟩ | ⟨hst, rfl⟩⟩
  · exact h
  · rcases h with hno | ⟨hi, _⟩ | ⟨_, hno⟩
    · rcases hst with hst | hst <;> rw [hst] at hno <;> cases hno
    · exact Or.inr (Or.inl ⟨hi, Or.inr rfl⟩)
    · rcases hno with hno | hno | ⟨_, hno⟩
      · rcases hst with hst | hst <;> rw [hst] at hno <;> cases hno
      · rcases hst with hst | hst <;> rw [hst] at hno <;> cases hno
      · exact absurd hno hbuf
  · rcases h with hno | ⟨_, hno⟩ | ⟨hi, _⟩
    · rw [hst] at hno
      cases hno
    · rcases hno with hno | hno <;> rw [hst] at hno <;> cases hno
    · exact Or.inr (Or.inr ⟨hi, Or.inr (Or.inl rfl)⟩)

/-- The list during the enumeration. -/
structure Enumerating (s : GmState) (stranded : Finset PoolSlot) : Prop where
  kept : Kept s stranded
  banners : ∀ e, s.gmReleased ≤ e → EnumBanner (e - s.gmReleased) (s.banner e)

theorem enumBanner_placed {aramOffset : Nat} {k : PoolSlot}
    (hcount : s.gmEntryCount < 0x80000000) :
    EnumBanner s.gmEntryCount (placedBanner aramOffset (forceUnload s 0) k) := by
  have hunload := forceUnload_eq_false 0 hcount (by decide)
  rw [Nat.zero_mul, Nat.zero_add] at hunload
  cases hforce : forceUnload s 0 with
  | false => exact Or.inr (Or.inl ⟨(hunload.1 hforce).2, Or.inl rfl⟩)
  | true =>
      refine Or.inr (Or.inr ⟨?_, Or.inl rfl⟩)
      by_contra hno
      rw [hunload.2 ⟨Nat.zero_le _, Nat.le_of_not_lt hno⟩] at hforce
      cases hforce

/-- A new entry of the enumeration. -/
theorem Enumerating.next
    {b : GmBanner} {used : PoolSlot → Bool} {posts : List ArqPost}
    (h : Enumerating s stranded) (hnew : NewEntry s s' b used posts)
    (hkept : Kept s' stranded) (hb : EnumBanner s.gmEntryCount b) :
    Enumerating s' stranded := by
  refine ⟨hkept, fun e he => ?_⟩
  rw [hnew.released] at he ⊢
  rw [hnew.banner]
  by_cases heq : e = s.nextEntry
  · rw [heq, Function.update_self, GmState.nextEntry, Nat.add_sub_cancel_left]
    exact hb
  · rw [Function.update_of_ne heq]
    exact h.banners e he

/-- The first entries find a buffer each. -/
theorem Enumerating.exists_free
    {b : GmBanner} {used : PoolSlot → Bool} {posts : List ArqPost}
    (h : Enumerating s stranded) (hnew : NewEntry s s' b used posts)
    (hb : b.state ≠ .none) (hfirst : s.gmEntryCount ≤ assetsInitialCount)
    (hroom : stranded.card + (crowd s' 0).card ≤ assetBufferCount) :
    ∃ k, s.freeSlot = some k := by
  have hnext : s'.nextEntry = s.nextEntry + 1 := by
    rw [GmState.nextEntry, hnew.released, hnew.count]
    exact (Nat.add_assoc ..).symm
  have hself : s.nextEntry ∈ crowd s' 0 := by
    refine mem_crowd.2 ⟨by omega, ?_, ?_, ?_⟩
    · rw [hnew.released]
      exact Nat.le_add_right ..
    · rw [hnew.banner, Function.update_self]
      exact hb
    · simp only [lineOf, hnew.released, GmState.nextEntry, assetsInitialCount,
        assetsPerLine] at hfirst ⊢
      omega
  refine h.kept.exists_free ((crowd s' 0).erase s.nextEntry) (fun e he hholds => ?_) ?_
  · have hne : (s.banner e).state ≠ .none :=
      fun hno => hholds (GmBanner.holds_idle (Or.inl hno))
    have hlt : e < s.nextEntry := by
      by_contra hno
      exact hne (h.kept.fresh e (Nat.le_of_not_lt hno))
    refine Finset.mem_erase.2 ⟨Nat.ne_of_lt hlt, mem_crowd.2 ⟨by omega, ?_, ?_, ?_⟩⟩
    · rw [hnew.released]
      exact he
    · rw [hnew.banner, Function.update_of_ne (Nat.ne_of_lt hlt)]
      exact hne
    · simp only [lineOf, hnew.released, GmState.nextEntry, assetsInitialCount,
        assetsPerLine] at hfirst hlt ⊢
      omega
  · have hpos := Finset.card_pos.2 ⟨_, hself⟩
    rw [Finset.card_erase_of_mem hself]
    omega

/-- One pass of the loop of `gm_check_files`, with the list at its top. -/
theorem Enumerating.check
    (h : Enumerating s stranded) (aramOffset : Nat) {f : ListedFile} (htop : f.topLineNum = 0)
    (hcount : s.gmEntryCount < 0x80000000)
    (hroom : stranded.card +
      (crowd (gmCheckFile ⟨s, aramOffset, []⟩ f).gm 0).card ≤ assetBufferCount) :
    Enumerating (gmCheckFile ⟨s, aramOffset, []⟩ f).gm stranded := by
  rcases gmCheckFile_cases ⟨s, aramOffset, []⟩ f with hsame | hnew | ⟨hwant, heq⟩
  · rw [hsame]
    exact h
  · exact h.next hnew (h.kept.newWithout hnew rfl (Or.inl rfl) fun hno => absurd rfl hno)
      (Or.inl rfl)
  · rw [heq] at hroom ⊢
    have hgame := gmCheckGame_type (c := ⟨s, aramOffset, []⟩) (f := f) hwant.2.2
    cases hslot : s.freeSlot with
    | some k =>
        have hnew := gmCheckGame_effect (c := ⟨s, aramOffset, []⟩) (f := f)
          hwant.2.2 hslot
        refine h.next hnew (h.kept.newWith hnew hslot rfl rfl ?_ hgame) ?_
        · cases forceUnload s f.topLineNum <;> rfl
        · rw [htop]
          exact enumBanner_placed hcount
    | none =>
        have hnew := gmCheckGame_exhausted (c := ⟨s, aramOffset, []⟩) (f := f)
          hwant.2.2 hslot
        refine h.next hnew (h.kept.newWithout hnew rfl (Or.inr rfl) fun _ => hgame) ?_
        refine Or.inr (Or.inr ⟨?_, Or.inr (Or.inr ⟨rfl, rfl⟩)⟩)
        by_contra hno
        obtain ⟨k, hk⟩ := h.exists_free hnew (by simp) (Nat.le_of_not_lt hno) hroom
        rw [hslot] at hk
        cases hk

/-- The completion of a request during the enumeration. -/
theorem Enumerating.complete
    (h : Enumerating s stranded) (i : Nat) : Enumerating (arqComplete s i) stranded := by
  obtain ⟨hkept, hsettles⟩ := h.kept.complete i
  refine ⟨hkept, fun e he => ?_⟩
  have hreleased : (arqComplete s i).gmReleased = s.gmReleased := by
    cases hp : s.arq[i]? with
    | none =>
        rw [arqComplete_none hp]
    | some p => exact (arqComplete_effect hp).released
  rw [hreleased] at he ⊢
  exact (h.banners e he).settles (hsettles e)

theorem Settles.started {b b' : GmBanner} (h : Settles b b') :
    b'.state = .none ↔ b.state = .none := by
  rcases h with rfl | ⟨-, ⟨hst, rfl⟩ | ⟨hst, rfl⟩⟩
  · exact Iff.rfl
  · refine ⟨fun hno => GmLoadState.noConfusion hno, fun hno => ?_⟩
    rcases hst with hst | hst <;> rw [hst] at hno <;> cases hno
  · refine ⟨fun hno => GmLoadState.noConfusion hno, fun hno => ?_⟩
    rw [hst] at hno
    cases hno

theorem gmCheckFile_shape (s : GmState) (aramOffset : Nat) (f : ListedFile) :
    (gmCheckFile ⟨s, aramOffset, []⟩ f).gm.gmReleased = s.gmReleased ∧
      s.gmEntryCount ≤ (gmCheckFile ⟨s, aramOffset, []⟩ f).gm.gmEntryCount := by
  refine ⟨gmCheckFile_released _ f, ?_⟩
  rcases gmCheckFile_new ⟨s, aramOffset, []⟩ f with hsame | ⟨b, used, posts, hnew, _⟩
  · rw [hsame]
  · rw [hnew.count]
    exact Nat.le_succ _

/-- The whole enumeration. -/
theorem Enumerated.enumerating
    (h : Enumerated s₀ s) (hstart : Enumerating s₀ stranded)
    (hcount : s.gmEntryCount < 0x80000000)
    (hroom : stranded.card + (crowd s 0).card ≤ assetBufferCount) :
    Enumerating s stranded := by
  induction h with
  | start => exact hstart
  | @check s aramOffset f _ htop ih =>
      obtain ⟨hreleased, hmore⟩ := gmCheckFile_shape s aramOffset f
      obtain ⟨hnext, hothers⟩ := gmCheckFile_others ⟨s, aramOffset, []⟩ f
      have hcrowd : crowd s 0 ⊆ crowd (gmCheckFile ⟨s, aramOffset, []⟩ f).gm 0 :=
        crowd_mono hreleased hnext fun e he hne => by rwa [(hothers e he).1]
      have hcard := Finset.card_le_card hcrowd
      exact (ih (by omega) (by omega)).check aramOffset htop (by omega) hroom
  | @complete s i _ ih =>
      cases hp : s.arq[i]? with
      | none =>
          rw [arqComplete_none hp] at hcount hroom ⊢
          exact ih hcount hroom
      | some p =>
          have hshape := (arqComplete_effect hp).shape
          have hcrowd : crowd s 0 ⊆ crowd (arqComplete s i) 0 := by
            refine crowd_mono hshape.released (by rw [hshape.nextEntry]) fun e _ hne => ?_
            rw [(arqComplete_effect hp).banner]
            by_cases hee : e = p.entry
            · rw [hee, Function.update_self]
              cases p.callback <;> simp [settledBanner]
            · rwa [Function.update_of_ne hee]
          have hcard := Finset.card_le_card hcrowd
          exact (ih (by rwa [hshape.count] at hcount) (by omega)).complete i

end Enumeration

section Moves

variable {s s' s₀ s₁ : GmState} {stranded : Finset PoolSlot} {top delta : Int} {e : Nat}
variable {l : List Nat}

theorem foldl_load_started (l : List Nat) (s : GmState) (e : Nat) :
    ((l.foldl gmBannerLoad s).banner e).state = .none ↔ (s.banner e).state = .none := by
  induction l generalizing s with
  | nil => exact Iff.rfl
  | cons x l ih =>
      rw [List.foldl_cons, ih]
      by_cases hx : e = x
      · rw [hx]
        by_cases hst : (s.banner x).state = .none ∨ (s.banner x).state = .loaded
        · rw [gmBannerLoad_idle hst]
        · have hne : (s.banner x).state ≠ .none := fun hno => hst (Or.inl hno)
          have hload : ((gmBannerLoad s x).banner x).state = .loading := by
            cases hslot : s.freeSlot with
            | none =>
                rw [(gmBannerLoad_exhausted hslot hst).banner, Function.update_self]
            | some k => rw [(gmBannerLoad_effect hslot hst).banner, Function.update_self]
          rw [hload]
          exact ⟨fun hno => GmLoadState.noConfusion hno, fun hno => absurd hno hne⟩
      · rw [(gmBannerLoad_others hx).1]

theorem foldl_free_started (l : List Nat) (s : GmState) (e : Nat) :
    ((l.foldl gmBannerFree s).banner e).state = .none ↔ (s.banner e).state = .none := by
  induction l generalizing s with
  | nil => exact Iff.rfl
  | cons x l ih =>
      rw [List.foldl_cons, ih]
      by_cases hx : e = x
      · rw [hx, (gmBannerFree_entry s x).2.1]
        cases (s.banner x).state <;> simp [freedState]
      · rw [(gmBannerFree_entry s x).2.2 e hx]

/-- A banner away from the screen. -/
def GmBanner.Away (b : GmBanner) : Prop :=
  b.state = .none ∨ b.state = .unloaded ∨ b.state = .loading ∧ b.buf = none

/-- A banner around the screen. -/
def GmBanner.There (b : GmBanner) : Prop :=
  b.state = .none ∨ b.state = .loaded

theorem GmBanner.Coming.settles {b b' : GmBanner}
    (h : b.Coming) (hs : Settles b b') : b'.Coming := by
  rcases hs with rfl | ⟨hbuf, ⟨hst, rfl⟩ | ⟨hst, rfl⟩⟩
  · exact h
  · exact Or.inr (Or.inl rfl)
  · rcases h with hno | hno | ⟨hno, _⟩ <;> rw [hst] at hno <;> cases hno

theorem GmBanner.There.settles {b b' : GmBanner}
    (h : b.There) (hs : Settles b b') : b'.There := by
  rcases hs with rfl | ⟨hbuf, ⟨hst, rfl⟩ | ⟨hst, rfl⟩⟩
  · exact h
  · exact Or.inr rfl
  · rcases h with hno | hno <;> rw [hst] at hno <;> cases hno

theorem GmBanner.Away.settles {b b' : GmBanner}
    (h : b.Away) (hs : Settles b b') : b'.Away := by
  rcases hs with rfl | ⟨hbuf, ⟨hst, rfl⟩ | ⟨hst, rfl⟩⟩
  · exact h
  · rcases h with hno | hno | ⟨_, hno⟩
    · rcases hst with hst | hst <;> rw [hst] at hno <;> cases hno
    · rcases hst with hst | hst <;> rw [hst] at hno <;> cases hno
    · exact absurd hno hbuf
  · exact Or.inr (Or.inl rfl)

/-- The list between two moves. -/
structure Windowed (s₁ : GmState) (stranded : Finset PoolSlot) (s : GmState) (top : Int) :
    Prop where
  kept : Kept s stranded
  idle : s.arq = []
  shape : SameShape s₁ s
  started : ∀ e, s.gmReleased ≤ e →
    ((s.banner e).state = .none ↔ (s₁.banner e).state = .none)
  inside : ∀ e, s.gmReleased ≤ e → InWindow top (lineOf s e) → (s.banner e).There
  /-- The enumeration loads one entry more than the window has. -/
  outside : ∀ e, s.gmReleased ≤ e → ¬ InWindow top (lineOf s e) →
    (s.banner e).Away ∨ top = 0 ∧ lineOf s e = 6 ∧ (s.banner e).state = .loaded

/-- The list as the enumeration leaves it. -/
theorem Enumerating.windowed
    (h : Enumerating s stranded) (harq : s.arq = []) : Windowed s stranded s 0 := by
  refine ⟨h.kept, harq, .refl s, fun _ _ => Iff.rfl, fun e he hline => ?_, fun e he hline => ?_⟩
  · have hready := h.kept.ready harq he
    rcases h.banners e he with hst | ⟨-, hst | hst⟩ | ⟨hi, -⟩
    · exact Or.inl hst
    · rcases hready with hno | hno | hno | ⟨hno, -⟩ <;> rw [hst] at hno <;> cases hno
    · exact Or.inr hst
    · simp only [InWindow, lineOf, assetsInitialCount, assetsPerLine] at hline hi
      omega
  · have hready := h.kept.ready harq he
    rcases h.banners e he with hst | ⟨hi, hst | hst⟩ | ⟨hi, hst | hst | hst⟩
    · exact Or.inl (Or.inl hst)
    · rcases hready with hno | hno | hno | ⟨hno, -⟩ <;> rw [hst] at hno <;> cases hno
    · refine Or.inr ⟨rfl, ?_, hst⟩
      simp only [InWindow, lineOf, assetsInitialCount, assetsPerLine] at hline hi ⊢
      omega
    · rcases hready with hno | hno | hno | ⟨hno, -⟩ <;> rw [hst] at hno <;> cases hno
    · exact Or.inl (Or.inr (Or.inl hst))
    · exact Or.inl (Or.inr (Or.inr hst))

/-- An entry that is no game of its line has no banner. -/
theorem Kept.no_game
    (h : Kept s stranded) (he : s.gmReleased ≤ e) (hnot : e ∉ gamesAt s (lineOf s e)) :
    (s.banner e).state = .none := by
  by_contra hne
  refine hnot (mem_gamesAt.2 ⟨h.games e he hne, he, ?_, rfl⟩)
  by_contra hno
  exact hne (h.fresh e (Nat.le_of_not_lt hno))

theorem Windowed.crowd_eq (h : Windowed s₁ stranded s top) (t : Int) :
    crowd s t = crowd s₁ t := by
  ext e
  simp only [mem_crowd, h.shape.nextEntry, ← h.shape.released, h.shape.lineOf]
  refine and_congr_right fun _ => and_congr_right fun he => and_congr_left fun _ => ?_
  exact not_congr (h.started e he)

/-- The entries that hold a buffer are in the eight lines that a move concerns. -/
theorem Windowed.holders
    (h : Windowed s₁ stranded s top) (hdelta : delta = 1 ∨ delta = -1)
    (hlow : 0 ≤ top + delta) (he : s.gmReleased ≤ e)
    (hholds : (s.banner e).holds ≠ none) :
    e ∈ crowd s (min top (top + delta)) := by
  have hne : (s.banner e).state ≠ .none :=
    fun hno => hholds (GmBanner.holds_idle (Or.inl hno))
  have hlt : e < s.nextEntry := by
    by_contra hno
    exact hne (h.kept.fresh e (Nat.le_of_not_lt hno))
  have hline : InWindow top (lineOf s e) ∨ top = 0 ∧ lineOf s e = 6 := by
    by_contra hno
    rw [not_or] at hno
    rcases h.outside e he hno.1 with (hst | hst | ⟨hst, hbuf⟩) | ⟨htop, hsix, -⟩
    · exact hne hst
    · exact hholds (GmBanner.holds_idle (Or.inr hst))
    · exact hholds (by rw [GmBanner.holds_not_idle (by rw [hst]; decide), hbuf])
    · exact hno.2 ⟨htop, hsix⟩
  refine mem_crowd.2 ⟨hlt, he, hne, ?_⟩
  simp only [InWindow] at hline
  rcases hdelta with rfl | rfl
  · rw [min_eq_left (by omega)]
    omega
  · rw [min_eq_right (by omega)]
    omega

/-- The games that a move loads find a buffer each. -/
theorem Windowed.loads
    (h : Windowed s₁ stranded s top) (hdelta : delta = 1 ∨ delta = -1)
    (hlow : 0 ≤ top + delta)
    (hroom : stranded.card + (crowd s₁ (min top (top + delta))).card ≤ assetBufferCount) :
    Kept ((gamesAt s (loadedLine top delta)).foldl gmBannerLoad s) stranded ∧
      LoadsServed s (gamesAt s (loadedLine top delta)) ∧
      ∀ e ∈ gamesAt s (loadedLine top delta),
        (((gamesAt s (loadedLine top delta)).foldl gmBannerLoad s).banner e).Coming := by
  refine h.kept.loads gamesAt_nodup (fun e he => ?_) (crowd s (min top (top + delta)))
    (fun e he hholds => h.holders hdelta hlow he hholds) (fun e he hne => ?_) ?_
  · obtain ⟨-, hreleased, hlt, -⟩ := mem_gamesAt.1 he
    exact ⟨hreleased, hlt, h.kept.ready h.idle hreleased⟩
  · obtain ⟨-, hreleased, hlt, hline⟩ := mem_gamesAt.1 he
    refine mem_crowd.2 ⟨hlt, hreleased, hne, ?_⟩
    rw [hline]
    rcases hdelta with rfl | rfl
    · rw [min_eq_left (by omega)]
      simp only [loadedLine]
      omega
    · rw [min_eq_right (by omega)]
      simp only [loadedLine]
      omega
  · rw [h.crowd_eq]
    exact hroom

/-- What a move has made of the banner of an entry in this line. -/
def Moved (top delta line : Int) (b : GmBanner) : Prop :=
  if line = loadedLine top delta then b.Coming
  else if InWindow (top + delta) line then b.There
  else b.Away

theorem Moved.settles {line : Int} {b b' : GmBanner}
    (h : Moved top delta line b) (hs : Settles b b') : Moved top delta line b' := by
  rw [Moved] at h ⊢
  by_cases hload : line = loadedLine top delta
  · rw [if_pos hload] at h ⊢
    exact h.settles hs
  · rw [if_neg hload] at h ⊢
    by_cases hwindow : InWindow (top + delta) line
    · rw [if_pos hwindow] at h ⊢
      exact h.settles hs
    · rw [if_neg hwindow] at h ⊢
      exact h.settles hs

/-- A move, before its requests complete. -/
theorem Windowed.changed
    (h : Windowed s₁ stranded s top) (hdelta : delta = 1 ∨ delta = -1)
    (hlow : 0 ≤ top + delta)
    (hroom : stranded.card + (crowd s₁ (min top (top + delta))).card ≤ assetBufferCount) :
    Kept (gmLineChanged s (listLines s₁) top delta) stranded ∧
      SameShape s (gmLineChanged s (listLines s₁) top delta) ∧
      ∀ e, s.gmReleased ≤ e →
        (((gmLineChanged s (listLines s₁) top delta).banner e).state = .none ↔
          (s.banner e).state = .none) ∧
        Moved top delta (lineOf s e)
          ((gmLineChanged s (listLines s₁) top delta).banner e) := by
  have hfew : (s.gmEntryCount : Int) ≤ 8 * listLines s₁ := by
    rw [h.shape.count]
    exact gridLines_enough _
  obtain ⟨hkept, -, hcoming⟩ := h.loads hdelta hlow hroom
  rw [gmLineChanged_eq hdelta hfew]
  obtain ⟨loaded, hloaded⟩ : ∃ loaded, loaded =
      (gamesAt s (loadedLine top delta)).foldl gmBannerLoad s := ⟨_, rfl⟩
  have hshape : SameShape s loaded := by
    rw [hloaded]
    exact foldl_shape gmBannerLoad_shape _ s
  have hsame : ∀ e, lineOf s e ≠ loadedLine top delta → loaded.banner e = s.banner e := by
    intro e hline
    rw [hloaded]
    exact (foldl_load_others fun hmem => hline (mem_gamesAt.1 hmem).2.2.2).1
  have hkeep : ∀ e, lineOf s e ≠ freedLine top delta →
      ((gamesAt s (freedLine top delta)).foldl gmBannerFree loaded).banner e =
        loaded.banner e :=
    fun e hline => foldl_free_others.2 e fun hmem => hline (mem_gamesAt.1 hmem).2.2.2
  have hfreed : InWindow top (freedLine top delta) ∧
      freedLine top delta ≠ loadedLine top delta := by
    rcases hdelta with rfl | rfl <;> simp only [InWindow, freedLine, loadedLine] <;> omega
  have hthere : ∀ e, s.gmReleased ≤ e → lineOf s e = freedLine top delta →
      (loaded.banner e).There := by
    intro e he hline
    rw [hsame e (by rw [hline]; exact hfreed.2)]
    exact h.inside e he (by rw [hline]; exact hfreed.1)
  rw [← hloaded] at hkept hcoming ⊢
  refine ⟨hkept.frees gamesAt_nodup fun e he => ?_,
    hshape.trans (foldl_shape gmBannerFree_shape _ loaded), fun e he => ⟨?_, ?_⟩⟩
  · obtain ⟨-, hreleased, hlt, hline⟩ := mem_gamesAt.1 he
    rw [hshape.released, hshape.nextEntry]
    exact ⟨hreleased, hlt, hthere e hreleased hline⟩
  · rw [foldl_free_started, hloaded, foldl_load_started]
  · rw [Moved]
    by_cases hload : lineOf s e = loadedLine top delta
    · rw [if_pos hload, hkeep e (by rw [hload]; exact Ne.symm hfreed.2)]
      by_cases hmem : e ∈ gamesAt s (loadedLine top delta)
      · exact hcoming e hmem
      · refine Or.inl ?_
        rw [hloaded, foldl_load_started]
        exact h.kept.no_game he (by rw [hload]; exact hmem)
    · rw [if_neg hload]
      by_cases hwindow : InWindow (top + delta) (lineOf s e)
      · obtain ⟨hbefore, hnot⟩ := (inWindow_move hdelta _).1 hwindow
        rw [if_pos hwindow, hkeep e hnot, hsame e hload]
        exact h.inside e he (hbefore.resolve_right hload)
      · rw [if_neg hwindow]
        by_cases hline : lineOf s e = freedLine top delta
        · by_cases hmem : e ∈ gamesAt s (freedLine top delta)
          · have hstate := foldl_free_state (s := loaded) gamesAt_nodup hmem
            rcases hthere e he hline with hst | hst
            · rw [hst] at hstate
              exact Or.inl hstate
            · rw [hst] at hstate
              exact Or.inr (Or.inl hstate)
          · refine Or.inl ?_
            rw [foldl_free_started, hsame e hload]
            exact h.kept.no_game he (by rw [hline]; exact hmem)
        · rw [hkeep e hline, hsame e hload]
          have hbefore : ¬ InWindow top (lineOf s e) := fun hin =>
            hwindow ((inWindow_move hdelta _).2 ⟨Or.inl hin, hline⟩)
          rcases h.outside e he hbefore with haway | ⟨hzero, hsix, -⟩
          · exact haway
          · simp only [loadedLine] at hload
            rcases hdelta with rfl | rfl <;> omega

/-- A move and the completion of its requests. -/
theorem Windowed.move
    (h : Windowed s₁ stranded s top) (hdelta : delta = 1 ∨ delta = -1)
    (hlow : 0 ≤ top + delta)
    (hroom : stranded.card + (crowd s₁ (min top (top + delta))).card ≤ assetBufferCount)
    (hdrains : Drains (gmLineChanged s (listLines s₁) top delta) s') :
    Windowed s₁ stranded s' (top + delta) := by
  obtain ⟨hkept, hshape, hbanners⟩ := h.changed hdelta hlow hroom
  obtain ⟨hkept', harq, hshape', hend⟩ := hkept.drains
    (P := fun e b => (b.state = .none ↔ (s.banner e).state = .none) ∧
      Moved top delta (lineOf s e) b)
    (fun e b b' hb hs => ⟨hs.started.trans hb.1, hb.2.settles hs⟩)
    (fun e he => hbanners e (by rwa [hshape.released] at he)) hdrains
  have hall := hshape.trans hshape'
  have hmoved : ∀ e, s'.gmReleased ≤ e → Moved top delta (lineOf s e) (s'.banner e) := by
    intro e he
    rw [hall.released, ← hshape.released] at he
    exact (hend e he).2
  have hloadedIn : InWindow (top + delta) (loadedLine top delta) := by
    rcases hdelta with rfl | rfl <;> simp only [InWindow, loadedLine] <;> omega
  refine ⟨hkept', harq, h.shape.trans hall, fun e he => ?_, fun e he hline => ?_,
    fun e he hline => Or.inl ?_⟩
  · rw [hall.released] at he
    rw [← h.started e he]
    exact (hend e (by rwa [hshape.released])).1
  · rw [hall.lineOf] at hline
    have hm := hmoved e he
    rw [Moved] at hm
    by_cases hload : lineOf s e = loadedLine top delta
    · rw [if_pos hload] at hm
      have hready := hkept'.ready harq he
      rcases hm with hst | hst | ⟨hst, hbuf⟩
      · exact Or.inl hst
      · exact Or.inr hst
      · rcases hready with hno | hno | hno | ⟨-, hno⟩
        · rw [hst] at hno
          cases hno
        · rw [hst] at hno
          cases hno
        · rw [hst] at hno
          cases hno
        · exact absurd hno hbuf
    · rw [if_neg hload, if_pos hline] at hm
      exact hm
  · rw [hall.lineOf] at hline
    have hm := hmoved e he
    have hload : lineOf s e ≠ loadedLine top delta := by
      intro heq
      rw [heq] at hline
      exact hline hloadedIn
    rw [Moved, if_neg hload, if_neg hline] at hm
    exact hm

theorem Scrolled.top_range (h : Scrolled s₁ s top) : 0 ≤ top ∧ top ≤ listLines s₁ - 4 := by
  have hlines : 4 ≤ listLines s₁ := gridLines_ge _
  cases h with
  | start => exact ⟨le_rfl, by omega⟩
  | move delta _ _ hlow hhigh _ => exact ⟨hlow, hhigh⟩

/-- The list is as it should be after every move. -/
theorem Scrolled.windowed
    (h : Scrolled s₁ s top) (hstart : Windowed s₁ stranded s₁ 0)
    (hroom : ∀ t, 0 ≤ t → t ≤ listLines s₁ - 4 →
      stranded.card + (crowd s₁ t).card ≤ assetBufferCount) :
    Windowed s₁ stranded s top := by
  induction h with
  | start => exact hstart
  | @move s s' top delta h hdelta hlow hhigh hdrains ih =>
      obtain ⟨htop, hbelow⟩ := h.top_range
      exact ih.move hdelta hlow (hroom _ (le_min htop hlow) (by omega)) hdrains

/-- The entries of the window have a buffer each. -/
theorem Windowed.windowLoaded (h : Windowed s₁ stranded s top) : WindowLoaded s₁ s top := by
  intro e he hlt hbanner hfrom hto
  rw [← h.shape.released] at he
  have hstarted : (s.banner e).state ≠ .none := fun hno => hbanner ((h.started e he).1 hno)
  have hline : InWindow top (lineOf s e) := by
    rw [h.shape.lineOf]
    exact ⟨(le_max_right ..).trans hfrom, hto.trans (min_le_right ..)⟩
  have hloaded := (h.inside e he hline).resolve_left hstarted
  have hidle : ¬ (s.banner e).state.Idle := by
    rw [hloaded]
    decide
  obtain ⟨k, hbuf⟩ : ∃ k, (s.banner e).buf = some k := by
    cases hbuf : (s.banner e).buf with
    | some k => exact ⟨k, rfl⟩
    | none =>
        rcases h.kept.buffered e he hbuf with hno | hno | hno <;> rw [hloaded] at hno <;>
          cases hno
  have hclient : clientHolds s stranded (.inl e) = some k := by
    rw [clientHolds, if_pos he, GmBanner.holds_not_idle hidle, hbuf]
  refine ⟨hloaded, k, hbuf, (h.kept.accounts.counted k).2 ⟨_, hclient⟩,
    fun e' he' hne hholds => hne ?_⟩
  have hclient' : clientHolds s stranded (.inl e') = some k := by
    rw [clientHolds, if_pos he', hholds]
  exact Sum.inl_injective (h.kept.accounts.exclusive _ _ k hclient' hclient)

/--
The lines around the screen are loaded after every move, and no move finds the pool
exhausted, as long as the buffers that were taken before the enumeration leave room
for the banners of the eight lines that a move concerns.
-/
theorem window_prefetched
    (hsession : Session s₀) (hempty : s₀.gmEntryCount = 0) (hidle : s₀.arq = [])
    (henum : Enumerated s₀ s₁) (hdone : s₁.arq = []) (hfew : s₁.gmEntryCount ≤ 1920)
    (hroom : ∀ t, 0 ≤ t → t ≤ listLines s₁ - 4 →
      (taken s₀).card + (crowd s₁ t).card ≤ assetBufferCount)
    (hscrolled : Scrolled s₁ s top) :
    WindowLoaded s₁ s top ∧ MovesServed s₁ s top := by
  have hstart : Enumerating s₀ (taken s₀) := by
    have hkept := Kept.empty hsession.fresh hempty hidle
    refine ⟨hkept, fun e he => Or.inl (hkept.fresh e ?_)⟩
    rw [GmState.nextEntry, hempty, Nat.add_zero]
    exact he
  have hlines := gridLines_ge s₁.gmEntryCount
  have hwindow := hscrolled.windowed
    ((henum.enumerating hstart (by omega) (hroom 0 le_rfl (by rw [listLines]; omega))).windowed
      hdone) hroom
  obtain ⟨htop, hbelow⟩ := hscrolled.top_range
  refine ⟨hwindow.windowLoaded, fun delta hdelta hlow hhigh => ?_⟩
  exact (hwindow.loads hdelta hlow (hroom _ (le_min htop hlow) (by omega))).2.1

end Moves

theorem gmCheckFile_handed (c : CheckState) (f : ListedFile) :
    (gmCheckFile c f).gm = (gmCheckFile ⟨c.gm, c.aramOffset, []⟩ f).gm := by
  rw [gmCheckFile, gmCheckFile]
  cases f.path.type with
  | game =>
      cases f.outcome.info.valid with
      | true => rfl
      | false => rfl
  | program => rfl
  | directory => rfl
  | unknown => rfl

/-- `gm_check_files` with the list at its top is such an enumeration. -/
theorem gmCheckFilesLoop_enumerated
    {s₀ : GmState} (listing : List ListedFile) (htop : ∀ f ∈ listing, f.topLineNum = 0)
    (c : CheckState) (h : Enumerated s₀ c.gm) :
    Enumerated s₀ (gmCheckFilesLoop c listing).gm := by
  induction listing generalizing c with
  | nil => exact h
  | cons f rest ih =>
      rw [gmCheckFilesLoop]
      by_cases hstop : f.stop = true
      · rw [if_pos hstop]
        exact h
      · rw [if_neg hstop]
        refine ih (fun f hf => htop f (List.mem_cons_of_mem _ hf)) _ ?_
        rw [gmCheckFile_handed]
        exact .check c.aramOffset f h (htop f List.mem_cons_self)

theorem gmCheckFiles_enumerated
    (s : GmState) (listing : List ListedFile) (htop : ∀ f ∈ listing, f.topLineNum = 0) :
    Enumerated s (gmCheckFiles s listing).gm :=
  gmCheckFilesLoop_enumerated listing htop _ .start

/-- A directory that is listed. -/
def listedDirectory : ListedFile :=
  { sampleGame with path := ⟨[0x2F, 0x62], .directory⟩ }

/-- A game, and seven lines of directories, with another game in the last of them. -/
def sevenLines : List ListedFile :=
  sampleGame :: (List.replicate 48 listedDirectory ++
    sampleGame :: List.replicate 6 listedDirectory)

/-- Both banners have been set up; the second one has been dropped, as it is far away. -/
def sevenListed : GmState :=
  arqComplete (arqComplete (gmCheckFiles .blank sevenLines).gm 0) 0

/-- The list is moved down by one line. -/
def sevenDown : GmState :=
  arqComplete (gmLineChanged sevenListed 7 0 1) 0

/-- The second banner is loaded when its line comes near. -/
theorem window_prefetched_down :
    WindowLoaded sevenListed sevenDown 1 ∧ MovesServed sevenListed sevenDown 1 ∧
      (sevenListed.banner 49).state = .unloaded ∧ OwnBuffer sevenDown 49 := by
  have htaken : taken .blank = ∅ := by decide +kernel
  have hlisted : Enumerated .blank sevenListed :=
    .complete 0 (.complete 0 (gmCheckFiles_enumerated _ sevenLines (by decide)))
  have hlines : listLines sevenListed = 7 := by decide +kernel
  have hdrains : Drains (gmLineChanged sevenListed (listLines sevenListed) 0 1) sevenDown := by
    rw [hlines]
    exact .complete 0 (by decide +kernel) (.done (by decide +kernel))
  have hscrolled : Scrolled sevenListed sevenDown (0 + 1) :=
    .move 1 .start (Or.inl rfl) (by decide) (by decide +kernel) hdrains
  obtain ⟨hwindow, hserved⟩ := window_prefetched (.start blank_empty) rfl rfl hlisted
    (by decide +kernel) (by decide +kernel) (fun t _ _ => by
      rw [htaken, Finset.card_empty, Nat.zero_add]
      exact (crowd_card_le sevenListed t).trans (by decide)) hscrolled
  refine ⟨hwindow, hserved, by decide +kernel, hwindow 49 ?_ ?_ ?_ ?_ ?_⟩ <;> decide +kernel

section Exhausted

variable {s : GmState}

/-- The game list is empty, and nothing is in flight. -/
structure Between (s : GmState) : Prop where
  session : Session s
  count : s.gmEntryCount = 0
  idle : s.arq = []

/-- A directory of one game is entered, and left while its banner is in setup. -/
def leaveInSetup (s : GmState) : GmState :=
  arqComplete (gmStartThread (gmCheckFile ⟨s, aramStart, []⟩ sampleGame).gm) 0

/-- A buffer is stranded. -/
theorem Between.leaveInSetup (h : Between s) {k : PoolSlot} {rest : List PoolSlot}
    (hfree : s.freeSlots = k :: rest) :
    Between (leaveInSetup s) ∧ (leaveInSetup s).freeSlots = rest := by
  have hslot : s.freeSlot = some k := by
    rw [freeSlot_eq, hfree]
    rfl
  have hforce : forceUnload s 0 = false :=
    (forceUnload_eq_false _ (by rw [h.count]; decide) (by decide)).2
      ⟨Nat.zero_le _, by rw [h.count]; decide⟩
  have hwant : BannerWanted sampleGame := ⟨rfl, rfl, by decide⟩
  have hnew := gmCheckGame_effect (c := ⟨s, aramStart, []⟩) (f := sampleGame)
    hwant.2.2 hslot
  have hcheck : (gmCheckFile ⟨s, aramStart, []⟩ sampleGame).gm =
      (gmCheckGame ⟨s, aramStart, []⟩ sampleGame).gm := rfl
  obtain ⟨s₁, hs₁⟩ : ∃ s₁, s₁ = (gmCheckGame ⟨s, aramStart, []⟩ sampleGame).gm := ⟨_, rfl⟩
  have hleave : Games.leaveInSetup s = arqComplete (gmStartThread s₁) 0 := by
    rw [Games.leaveInSetup, hcheck, hs₁]
  have hsession₁ : Session s₁ := by
    rw [hs₁, ← hcheck]
    exact h.session.step (.asset (.enumerate aramStart sampleGame))
  rw [← hs₁] at hnew
  have hforce' : forceUnload s sampleGame.topLineNum = false := hforce
  simp only [hforce', h.idle, List.nil_append] at hnew
  -- the release finds the only banner in setup
  have hgives : ∀ e ∈ releasedGames s₁, ∀ k, ¬ Gives s₁ e k := by
    intro e he k hg
    have hrange := List.mem_range'_1.1 (List.mem_filter.1 he).1
    rw [hnew.released, hnew.count, h.count] at hrange
    have heq : e = s.nextEntry := by
      rw [GmState.nextEntry, h.count]
      omega
    rw [Gives, heq, hnew.banner, Function.update_self] at hg
    rcases hg.1 with hst | hst <;> cases hst
  have hused : (gmStartThread s₁).used = Function.update s.used k true := by
    rw [gmStartThread_used, ← hnew.used]
    funext k'
    refine Bool.eq_iff_iff.2 ?_
    have hnodup : (releasedGames s₁).Nodup := List.Nodup.filter _ List.nodup_range'
    rw [foldl_free_used hnodup]
    exact ⟨fun hk => hk.1, fun hk => ⟨hk, fun e he => hgives e he k'⟩⟩
  have hpost : (gmStartThread s₁).arq[0]? =
      some ⟨s.nextEntry, .setup, some k, aramStart⟩ := by
    rw [gmStartThread_arq, hnew.arq]
    rfl
  have heff := arqComplete_effect hpost
  rw [hleave]
  refine ⟨⟨(hsession₁.step .startThread).step (.asset (.complete 0)), ?_, ?_⟩, ?_⟩
  · rw [heff.count]
    rfl
  · rw [heff.arq, gmStartThread_arq, hnew.arq]
    rfl
  · exact freeSlots_take hfree (heff.used.trans hused)

/-- This many directories have been left in setup. -/
def strand : Nat → GmState
  | 0 => .blank
  | n + 1 => leaveInSetup (strand n)

theorem strand_between (n : Nat) (hn : n ≤ assetBufferCount) :
    Between (strand n) ∧ (strand n).freeSlots.length = assetBufferCount - n := by
  induction n with
  | zero =>
      refine ⟨⟨.start blank_empty, rfl, rfl⟩, ?_⟩
      have hall : GmState.blank.freeSlots = List.finRange assetBufferCount :=
        List.filter_eq_self.2 fun k _ => by rw [blank_empty.pool]; rfl
      rw [strand, hall, List.length_finRange]
      rfl
  | succ n ih =>
      obtain ⟨hbetween, hlength⟩ := ih (by omega)
      cases hfree : (strand n).freeSlots with
      | nil =>
          rw [hfree, List.length_nil] at hlength
          omega
      | cons k rest =>
          obtain ⟨hnext, hrest⟩ := hbetween.leaveInSetup hfree
          refine ⟨hnext, ?_⟩
          rw [hfree, List.length_cons] at hlength
          rw [strand, hrest]
          omega

/-- A game of a directory, by its number. -/
def numberedGame (i : Nat) : ListedFile :=
  { sampleGame with
    path := ⟨[0x2F, 0x30 + (i / 10).toUInt8, 0x30 + (i % 10).toUInt8], .game⟩ }

/-- The enumeration of so many games, with nothing left in the pool. -/
def crowded : Nat → GmState
  | 0 => strand 128
  | n + 1 => (gmCheckFile ⟨crowded n, aramStart, []⟩ (numberedGame n)).gm

/-- Every game is left waiting for a buffer. -/
theorem crowded_spec (n : Nat) :
    Enumerated (strand 128) (crowded n) ∧ (crowded n).arq = [] ∧
      (crowded n).gmEntryCount = n ∧ (crowded n).freeSlot = none ∧
      ∀ i < n, ((crowded n).entry ((crowded n).gmReleased + i)).type = .game ∧
        ((crowded n).banner ((crowded n).gmReleased + i)).state = .loading := by
  induction n with
  | zero =>
      obtain ⟨hbetween, hlength⟩ := strand_between 128 le_rfl
      refine ⟨.start, hbetween.idle, hbetween.count, ?_, fun i hi => absurd hi (by omega)⟩
      rw [crowded, freeSlot_eq, List.length_eq_zero_iff.1 hlength]
      rfl
  | succ n ih =>
      obtain ⟨henum, harq, hcount, hslot, hentries⟩ := ih
      have hbanner : sampleGame.outcome.info.bnrOffset ≠ 0 := by decide
      have hwant : BannerWanted (numberedGame n) := ⟨rfl, rfl, hbanner⟩
      have hnew : NewEntry (crowded n) (crowded (n + 1))
          { GmBanner.zero with state := .loading } (crowded n).used (crowded n).arq :=
        gmCheckGame_exhausted (c := ⟨crowded n, aramStart, []⟩) hwant.2.2 hslot
      have hgame : ((crowded (n + 1)).entry (crowded n).nextEntry).type = .game :=
        gmCheckGame_type (c := ⟨crowded n, aramStart, []⟩) hwant.2.2
      refine ⟨.check aramStart _ henum rfl, hnew.arq.trans harq, ?_, ?_, fun i hi => ?_⟩
      · rw [hnew.count, hcount]
      · have hsame : (crowded (n + 1)).freeSlots = (crowded n).freeSlots := by
          simp only [GmState.freeSlots, hnew.used]
        rw [freeSlot_eq, hsame, ← freeSlot_eq, hslot]
      · rw [hnew.released, hnew.banner]
        by_cases hin : i = n
        · have hlast : (crowded n).gmReleased + i = (crowded n).nextEntry := by
            rw [GmState.nextEntry, hcount, hin]
          rw [hlast, Function.update_self]
          exact ⟨hgame, rfl⟩
        · have hne : (crowded n).gmReleased + i ≠ (crowded n).nextEntry := by
            rw [GmState.nextEntry, hcount]
            omega
          rw [Function.update_of_ne hne, hnew.type _ hne]
          exact hentries i (by omega)

/-- With the pool exhausted only entries that need no buffer are served. -/
theorem LoadsServed.none_free {l : List Nat}
    (h : LoadsServed s l) (hslot : s.freeSlot = none) :
    ∀ e ∈ l, (s.banner e).state = .none ∨ (s.banner e).state = .loaded := by
  induction l generalizing s with
  | nil => exact fun e he => absurd he List.not_mem_nil
  | cons x l ih =>
      have hx : (s.banner x).state = .none ∨ (s.banner x).state = .loaded := by
        by_contra hno
        exact h.1 hno hslot
      have hrest := h.2
      rw [gmBannerLoad_idle hx] at hrest
      intro e he
      rcases List.mem_cons.1 he with heq | hmem
      · rw [heq]
        exact hx
      · exact ih hrest hslot e hmem

/-- The first move finds the pool exhausted, if a game of the seventh line waits. -/
theorem not_movesServed
    (hcount : s.gmEntryCount = 49) (hslot : s.freeSlot = none)
    (hgame : (s.entry (s.gmReleased + 48)).type = .game)
    (hloading : (s.banner (s.gmReleased + 48)).state = .loading) :
    ¬ MovesServed s s 0 := by
  intro hserved
  have hlines : listLines s = 7 := by
    rw [listLines, hcount]
    rfl
  have hmove := hserved 1 (Or.inl rfl) (by omega) (by omega)
  have hmem : s.gmReleased + 48 ∈ gamesAt s (loadedLine 0 1) := by
    refine mem_gamesAt.2 ⟨hgame, Nat.le_add_right .., ?_, ?_⟩
    · rw [GmState.nextEntry, hcount]
      omega
    · rw [lineOf, Nat.add_sub_cancel_left]
      rfl
  rcases hmove.none_free hslot _ hmem with hst | hst <;> rw [hloading] at hst <;> cases hst

/--
The pool after 128 directories that were left in setup.  The move to the second line
of a directory of 49 games finds it exhausted.
-/
theorem pool_stranded :
    Session (strand 128) ∧ (strand 128).gmEntryCount = 0 ∧ (strand 128).arq = [] ∧
      Enumerated (strand 128) (crowded 49) ∧ (crowded 49).arq = [] ∧
      (crowded 49).gmEntryCount ≤ 1920 ∧ Scrolled (crowded 49) (crowded 49) 0 ∧
      ¬ MovesServed (crowded 49) (crowded 49) 0 := by
  obtain ⟨hbetween, -⟩ := strand_between 128 le_rfl
  obtain ⟨henum, harq, hcount, hslot, hentries⟩ := crowded_spec 49
  obtain ⟨hgame, hloading⟩ := hentries 48 (by decide)
  refine ⟨hbetween.session, hbetween.count, hbetween.idle, henum, harq, ?_, .start, ?_⟩
  · rw [hcount]
    decide
  · exact not_movesServed hcount hslot hgame hloading

end Exhausted

end Games
end Cubiboot
