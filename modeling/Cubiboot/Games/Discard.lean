import Cubiboot.Games.Ownership

/-!
# Discarding a directory

`gm_start_thread` gives every entry back to the heap, whatever its banner is
doing.  The requests in flight keep pointing into the released entries, and
`gm_banner_free` has left the buffers of such entries taken.  The release is
safe exactly when no request is in flight and every taken buffer belongs to a
game that `gm_banner_free` acts on.

Results: `Session.listed`, that requests are for entries that exist; `gmStartThread_eq`,
the release as a list of frees; `foldl_free_used`, which buffers such a list gives back;
and `safely_discarded_iff`, in which states of a session the release is safe.
-/

namespace Cubiboot
namespace Games

open Runs

/-- The steps of the game list over any number of directories. -/
inductive SessionStep : GmState → GmState → Prop where
  | asset {s : GmState} (a : AssetEvent) : SessionStep s (a.apply s)
  | startThread {s : GmState} : SessionStep s (gmStartThread s)

/-- The states of the game list in all sessions. -/
abbrev Session (s : GmState) : Prop :=
  Reachable EmptyList SessionStep s

/-- Completion of the remaining requests, in any order. -/
inductive Drains : GmState → GmState → Prop where
  | done {s : GmState} (h : s.arq = []) : Drains s s
  | complete {s s' : GmState} (i : Nat) (hi : i < s.arq.length)
      (h : Drains (arqComplete s i) s') : Drains s s'

/-- What `gm_start_thread` should leave behind. -/
structure SafelyDiscarded (s : GmState) : Prop where
  /-- No request in flight, and so no later callback, refers to a released entry. -/
  requests : ∀ p ∈ (gmStartThread s).arq, ¬ p.entry < (gmStartThread s).gmReleased
  pool : ∀ s', Drains (gmStartThread s) s' → ∀ k, s'.used k = false

/-- Every request in flight was posted for an entry. -/
def RequestsListed (s : GmState) : Prop :=
  ∀ p ∈ s.arq, p.entry < s.nextEntry

theorem RequestsListed.load
    {s : GmState} (h : RequestsListed s) {e : Nat} (he : e < s.nextEntry) :
    RequestsListed (gmBannerLoad s e) := by
  intro p hp
  rw [(gmBannerLoad_shape s e).nextEntry]
  by_cases hst : (s.banner e).state = .none ∨ (s.banner e).state = .loaded
  · rw [gmBannerLoad_idle hst] at hp
    exact h p hp
  · cases hslot : s.freeSlot with
    | none =>
        rw [(gmBannerLoad_exhausted hslot hst).arq] at hp
        exact h p hp
    | some k =>
        rw [(gmBannerLoad_effect hslot hst).arq, List.mem_append,
          List.mem_singleton] at hp
        rcases hp with hp | rfl
        · exact h p hp
        · exact he

theorem RequestsListed.loads
    {l : List Nat} {s : GmState} (h : RequestsListed s)
    (hl : ∀ e ∈ l, e < s.nextEntry) :
    RequestsListed (l.foldl gmBannerLoad s) := by
  induction l generalizing s with
  | nil => exact h
  | cons e l ih =>
      refine ih (h.load (hl e List.mem_cons_self)) fun e' he' => ?_
      rw [(gmBannerLoad_shape s e).nextEntry]
      exact hl e' (List.mem_cons_of_mem e he')

theorem RequestsListed.enumerate
    {s : GmState} (h : RequestsListed s) (aramOffset : Nat) (f : ListedFile) :
    RequestsListed (gmCheckFile ⟨s, aramOffset, []⟩ f).gm := by
  rcases gmCheckFile_new ⟨s, aramOffset, []⟩ f with hsame | ⟨b, used, posts, hnew, hposts⟩
  · rw [hsame]
    exact h
  · intro p hp
    rw [hnew.nextEntry]
    rw [hnew.arq] at hp
    rcases hposts with rfl | ⟨q, hq, rfl⟩
    · exact Nat.lt_succ_of_lt (h p hp)
    · rw [List.mem_append, List.mem_singleton] at hp
      rcases hp with hold | rfl
      · exact Nat.lt_succ_of_lt (h p hold)
      · rw [hq]
        exact Nat.lt_succ_self _

/-- The games that `gm_start_thread` releases. -/
def releasedGames (s : GmState) : List Nat :=
  (List.range' s.gmReleased s.gmEntryCount).filter fun e =>
    decide ((s.entry e).type = .game)

theorem gmReleaseLoop_eq (s : GmState) (todo e : Nat) :
    gmReleaseLoop s todo e = (List.range' e todo).foldl gmEntryFree s := by
  induction todo generalizing s e with
  | zero => rfl
  | succ todo ih =>
      rw [gmReleaseLoop, ih, List.range'_succ, List.foldl_cons]

/-- The release is a free of every game in turn. -/
theorem gmStartThread_eq (s : GmState) :
    gmStartThread s =
      { (releasedGames s).foldl gmBannerFree s with
        gmReleased := s.gmReleased + s.gmEntryCount
        gmEntryCount := 0 } := by
  have hfold : (List.range' s.gmReleased s.gmEntryCount).foldl gmEntryFree s =
      (releasedGames s).foldl gmBannerFree s :=
    foldl_games gmBannerFree_shape _ s
  unfold gmStartThread
  rw [gmReleaseLoop_eq, hfold]

theorem gmStartThread_arq (s : GmState) :
    (gmStartThread s).arq = s.arq := by
  rw [gmStartThread_eq]
  exact (foldl_free_others (l := releasedGames s) (s := s)).1

theorem gmStartThread_used (s : GmState) :
    (gmStartThread s).used = ((releasedGames s).foldl gmBannerFree s).used := by
  rw [gmStartThread_eq]
  rfl

/-- An entry whose buffer `gm_banner_free` gives back. -/
def Gives (s : GmState) (e : Nat) (k : PoolSlot) : Prop :=
  ((s.banner e).state = .loaded ∨ (s.banner e).state = .unloaded) ∧
    (s.banner e).buf = some k

/-- The mark of a buffer after one free. -/
theorem gmBannerFree_used (s : GmState) (e : Nat) (k : PoolSlot) :
    (gmBannerFree s e).used k = true ↔ s.used k = true ∧ ¬ Gives s e k := by
  have hkeep : (s.banner e).state ≠ .loaded → (s.banner e).state ≠ .unloaded →
      (gmBannerFree s e).used = s.used →
      ((gmBannerFree s e).used k = true ↔ s.used k = true ∧ ¬ Gives s e k) := by
    intro h₁ h₂ hused
    rw [hused]
    refine ⟨fun hk => ⟨hk, ?_⟩, fun hk => hk.1⟩
    rintro ⟨hst | hst, _⟩
    · exact h₁ hst
    · exact h₂ hst
  have hgive : (s.banner e).state = .unloaded ∨ (s.banner e).state = .loaded →
      ((gmBannerFree s e).used k = true ↔ s.used k = true ∧ ¬ Gives s e k) := by
    intro hst
    rw [(gmBannerFree_effect hst).used]
    cases hb : (s.banner e).buf with
    | none =>
        refine ⟨fun hk => ⟨hk, ?_⟩, fun hk => hk.1⟩
        rintro ⟨_, hno⟩
        rw [hb] at hno
        cases hno
    | some k' =>
        rw [usedWithout_some]
        by_cases hkk : k = k'
        · rw [hkk, Function.update_self]
          refine ⟨fun hno => absurd hno (by simp), fun ⟨_, hno⟩ => ?_⟩
          exact absurd ⟨hst.symm, hb⟩ hno
        · rw [Function.update_of_ne hkk]
          refine ⟨fun hk => ⟨hk, ?_⟩, fun hk => hk.1⟩
          rintro ⟨_, hk'⟩
          rw [hb] at hk'
          exact hkk (Option.some.inj hk').symm
  cases hst : (s.banner e).state with
  | none =>
      exact hkeep (by simp [hst]) (by simp [hst])
        (by rw [gmBannerFree_idle (Or.inl hst)])
  | unloading =>
      exact hkeep (by simp [hst]) (by simp [hst])
        (by rw [gmBannerFree_idle (Or.inr hst)])
  | setup =>
      exact hkeep (by simp [hst]) (by simp [hst])
        (gmBannerFree_deferred (Or.inr hst)).used
  | loading =>
      exact hkeep (by simp [hst]) (by simp [hst])
        (gmBannerFree_deferred (Or.inl hst)).used
  | unloaded => exact hgive (Or.inl hst)
  | loaded => exact hgive (Or.inr hst)

/-- The mark of a buffer after a list of frees. -/
theorem foldl_free_used
    {l : List Nat} {s : GmState} {k : PoolSlot} (hnodup : l.Nodup) :
    (l.foldl gmBannerFree s).used k = true ↔
      s.used k = true ∧ ∀ e ∈ l, ¬ Gives s e k := by
  induction l generalizing s with
  | nil => simp
  | cons x l ih =>
      obtain ⟨hx, hl⟩ := List.nodup_cons.1 hnodup
      rw [List.foldl_cons, ih hl, gmBannerFree_used]
      have hsame : ∀ e ∈ l, (Gives (gmBannerFree s x) e k ↔ Gives s e k) := by
        intro e he
        have hne : e ≠ x := by
          rintro rfl
          exact hx he
        unfold Gives
        rw [(gmBannerFree_entry s x).2.2 e hne]
      constructor
      · rintro ⟨⟨hk, hgx⟩, hrest⟩
        refine ⟨hk, fun e he => ?_⟩
        rcases List.mem_cons.1 he with rfl | hel
        · exact hgx
        · exact fun hg => hrest e hel ((hsame e hel).2 hg)
      · rintro ⟨hk, hall⟩
        refine ⟨⟨hk, hall x List.mem_cons_self⟩, fun e he hg => ?_⟩
        exact hall e (List.mem_cons_of_mem x he) ((hsame e he).1 hg)

/-- Every session keeps its requests to entries that exist. -/
theorem Session.listed
    {s : GmState} (h : Session s) : RequestsListed s := by
  refine h.invariant (fun s hempty p hp => ?_) (fun s s' hinv hs => ?_)
  · rw [hempty.arq] at hp
    cases hp
  · cases hs with
    | asset a =>
        cases a with
        | enumerate aramOffset f => exact hinv.enumerate aramOffset f
        | lineLoad lineNum =>
            show RequestsListed (gmLineLoad s lineNum)
            rw [gmLineLoad_eq]
            exact hinv.loads fun e he => (mem_lineGames he).2.2
        | lineFree lineNum =>
            intro p hp
            show p.entry < (gmLineFree s lineNum).nextEntry
            rw [(gmLineFree_shape s lineNum).nextEntry]
            refine hinv p ?_
            change p ∈ (gmLineFree s lineNum).arq at hp
            rwa [gmLineFree_eq, foldl_free_others.1] at hp
        | complete i =>
            intro p hp
            show p.entry < (arqComplete s i).nextEntry
            rw [arqComplete_nextEntry]
            refine hinv p ?_
            change p ∈ (arqComplete s i).arq at hp
            cases hpost : s.arq[i]? with
            | none =>
                rwa [arqComplete_none hpost] at hp
            | some q =>
                rw [(arqComplete_effect hpost).arq] at hp
                exact List.mem_of_mem_eraseIdx hp
    | startThread =>
        intro p hp
        rw [gmStartThread_arq] at hp
        exact hinv p hp

/--
In every state of every session the release of the list is safe exactly when no
request is in flight and every taken buffer belongs to a listed game that is
LOADED or UNLOADED.
-/
theorem safely_discarded_iff
    {s : GmState} (h : Session s) :
    SafelyDiscarded s ↔
      s.arq = [] ∧
        ∀ k, s.used k = true → ∃ e ∈ releasedGames s, Gives s e k := by
  have hlisted := h.listed
  have hnodup : (releasedGames s).Nodup :=
    List.Nodup.filter _ (List.nodup_range' ..)
  constructor
  · intro hsafe
    have hnone : s.arq = [] := by
      refine List.eq_nil_iff_forall_not_mem.2 fun p hp => ?_
      refine hsafe.requests p (by rwa [gmStartThread_arq]) ?_
      exact hlisted p hp
    refine ⟨hnone, fun k hk => ?_⟩
    have hclear := hsafe.pool _ (.done (by rw [gmStartThread_arq, hnone])) k
    by_contra hno
    push Not at hno
    rw [gmStartThread_used, (foldl_free_used hnodup).2 ⟨hk, hno⟩] at hclear
    cases hclear
  · rintro ⟨hnone, hgives⟩
    have harq : (gmStartThread s).arq = [] := by
      rw [gmStartThread_arq, hnone]
    refine ⟨fun p hp => ?_, fun s' hdrain k => ?_⟩
    · rw [harq] at hp
      cases hp
    · have hs' : s' = gmStartThread s := by
        cases hdrain with
        | done => rfl
        | complete i hi _ =>
            rw [harq] at hi
            cases hi
      rw [hs', gmStartThread_used, Bool.eq_false_iff]
      intro hk
      obtain ⟨hused, hall⟩ := (foldl_free_used hnodup).1 hk
      obtain ⟨e, he, hg⟩ := hgives k hused
      exact hall e he hg

theorem session_setup :
    Session oneInSetup :=
  (Reachable.start blank_empty).step (.asset (.enumerate aramStart sampleGame))

/--
The directory is left while the banner of its only game is in setup.  The
request outlives its entry, and its completion leaves the buffer taken.
-/
theorem discard_in_setup :
    Session oneInSetup ∧
      ¬ SafelyDiscarded oneInSetup ∧
      (∃ p ∈ (gmStartThread oneInSetup).arq,
        p.entry < (gmStartThread oneInSetup).gmReleased) ∧
      ∃ s', Drains (gmStartThread oneInSetup) s' ∧ s'.used 0 = true := by
  have hpost : ∃ p ∈ (gmStartThread oneInSetup).arq,
      p.entry < (gmStartThread oneInSetup).gmReleased :=
    ⟨⟨0, .setup, some 0, aramStart⟩, by decide +kernel, by decide +kernel⟩
  refine ⟨session_setup, fun hsafe => ?_, hpost, ?_⟩
  · obtain ⟨p, hp, hlt⟩ := hpost
    exact hsafe.requests p hp hlt
  · exact ⟨_, .complete 0 (by decide +kernel) (.done (by decide +kernel)),
      by decide +kernel⟩

/-- The directory is left once that banner has been set up. -/
theorem discard_after_setup :
    Session (arqComplete oneInSetup 0) ∧ (arqComplete oneInSetup 0).used 0 = true ∧
      SafelyDiscarded (arqComplete oneInSetup 0) := by
  have hsession : Session (arqComplete oneInSetup 0) :=
    session_setup.step (.asset (.complete 0))
  have hused : ∀ k, (arqComplete oneInSetup 0).used k = true → k = 0 := by
    decide +kernel
  have hgives : Gives (arqComplete oneInSetup 0) 0 0 :=
    ⟨Or.inl (by decide +kernel), by decide +kernel⟩
  refine ⟨hsession, by decide +kernel,
    (safely_discarded_iff hsession).2 ⟨by decide +kernel, fun k hk => ?_⟩⟩
  rw [hused k hk]
  exact ⟨0, by decide +kernel, hgives⟩

end Games
end Cubiboot
