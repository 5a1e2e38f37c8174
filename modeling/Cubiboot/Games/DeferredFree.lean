import Cubiboot.Games.Ownership

/-!
# Deferred frees

`gm_banner_free` records `schedule_free` on a banner that is still in transfer,
and nothing reads it.  A free is honoured when it meets each game of its line at
rest, or with nothing but its unload in flight.  `Browsing` remembers the last
call made on every entry.

Results: `Releasable.freed`, what a free does to such a game; `Releasing.complete`, that
every completion brings it nearer to its release; `BrowsingStep.honoured`, the step
lemma; and `deferred_free_honoured`, that in runs of such frees none is forgotten.
-/

namespace Cubiboot
namespace Games

open Runs

/-- The calls made on the entries of a line. -/
inductive LineCall where
  | load
  | free
deriving DecidableEq, Repr

/-- The game list, with the last line call on each game. -/
structure Browsing where
  gm : GmState
  lastCall : Nat → Option LineCall

/-- The calls after an event. -/
def AssetEvent.calls
    (s : GmState) (lastCall : Nat → Option LineCall) :
    AssetEvent → Nat → Option LineCall
  | .lineLoad lineNum => fun e =>
      if e ∈ lineGames s lineNum then some .load else lastCall e
  | .lineFree lineNum => fun e =>
      if e ∈ lineGames s lineNum then some .free else lastCall e
  | _ => lastCall

/-- The step relation of browsing. -/
def BrowsingStep (b : Browsing) (a : AssetEvent) (b' : Browsing) : Prop :=
  b' = ⟨a.apply b.gm, a.calls b.gm b.lastCall⟩

/-- No line call has been made yet. -/
def NoCalls (b : Browsing) : Prop :=
  ∀ e, b.lastCall e = none

/-- At rest, or with nothing but its unload in flight. -/
def Releasable (s : GmState) (e : Nat) : Prop :=
  ((s.banner e).state.Idle ∨ (s.banner e).state = .loaded) ∧
      s.inFlight e = [] ∨
    (s.banner e).state = .unloading ∧ s.inFlight e = [.unload]

/-- The condition on a step: a free meets only games that it can release. -/
def FreeGuard (b : Browsing) : AssetEvent → Prop
  | .lineFree lineNum => ∀ e ∈ lineGames b.gm lineNum, Releasable b.gm e
  | _ => True

/-- Released, or with nothing but its unload in flight. -/
def Releasing (s : GmState) (e : Nat) : Prop :=
  (s.banner e).state.Idle ∧ s.inFlight e = [] ∨
    (s.banner e).state = .unloading ∧ s.inFlight e = [.unload]

/-- What is kept: an entry whose last call was a free is released or releasing. -/
def FreesHonoured (b : Browsing) : Prop :=
  ∀ e, b.lastCall e = some .free →
    e < b.gm.nextEntry ∧ Releasing b.gm e

/-- `Releasing` looks at the banner and the requests of the entry only. -/
theorem Releasing.congr
    {s s' : GmState} {e : Nat} (h : Releasing s e)
    (hbanner : s'.banner e = s.banner e) (hreq : s'.inFlight e = s.inFlight e) :
    Releasing s' e := by
  unfold Releasing
  rw [hbanner, hreq]
  exact h

/-- A free of a game that can be released. -/
theorem Releasable.freed
    {s s' : GmState} {e : Nat} (h : Releasable s e)
    (hstate : (s'.banner e).state = freedState (s.banner e).state)
    (hreq : s'.inFlight e = s.inFlight e) :
    Releasing s' e := by
  unfold Releasing
  rw [hstate, hreq]
  rcases h with ⟨hst, hnone⟩ | ⟨hst, hunload⟩
  · refine Or.inl ⟨?_, hnone⟩
    rcases hst with (hst | hst) | hst <;> rw [hst] <;> decide
  · refine Or.inr ⟨?_, hunload⟩
    rw [hst]
    rfl

/-- A completion brings a releasing entry to its release. -/
theorem Releasing.complete
    {s : GmState} {e : Nat} (h : Releasing s e) (i : Nat) :
    Releasing (arqComplete s i) e := by
  cases hp : s.arq[i]? with
  | none =>
      rw [arqComplete_none hp]
      exact h
  | some p =>
      have heff := arqComplete_effect hp
      obtain ⟨l, r, hl, hr⟩ := inFlight_erase (e := e) hp heff.arq
      by_cases hpe : p.entry = e
      · rw [if_pos hpe] at hl
        rcases h with ⟨_, hnone⟩ | ⟨_, hunload⟩
        · rw [hnone] at hl
          simp at hl
        · -- the request completed is the unload
          rw [hunload] at hl
          have hlen := congrArg List.length hl
          simp only [List.length_append, List.length_singleton] at hlen
          have hl0 : l = [] := List.length_eq_zero_iff.1 (by omega)
          have hr0 : r = [] := List.length_eq_zero_iff.1 (by omega)
          rw [hl0, hr0] at hl hr
          have hcb : p.callback = .unload := by simpa using hl.symm
          refine Or.inl ⟨?_, hr⟩
          rw [heff.banner, hpe, Function.update_self, hcb]
          exact Or.inr rfl
      · rw [if_neg hpe, List.append_nil] at hl
        refine h.congr ?_ (hr.trans hl.symm)
        rw [heff.banner, Function.update_of_ne (Ne.symm hpe)]

/-- Every step whose guard holds keeps the frees honoured. -/
theorem BrowsingStep.honoured
    {b b' : Browsing} {a : AssetEvent}
    (h : FreesHonoured b) (hguard : FreeGuard b a) (hs : BrowsingStep b a b') :
    FreesHonoured b' := by
  rw [BrowsingStep] at hs
  rw [hs]
  intro e hlast
  cases a with
  | enumerate aramOffset f =>
      obtain ⟨he, hrel⟩ := h e hlast
      obtain ⟨hle, hothers⟩ := gmCheckFile_others ⟨b.gm, aramOffset, []⟩ f
      obtain ⟨hbanner, hreq⟩ := hothers e he
      exact ⟨lt_of_lt_of_le he hle, hrel.congr hbanner hreq⟩
  | lineLoad lineNum =>
      have hnot : e ∉ lineGames b.gm lineNum := by
        intro hmem
        simp [AssetEvent.calls, hmem] at hlast
      obtain ⟨he, hrel⟩ := h e (by simpa [AssetEvent.calls, hnot] using hlast)
      show e < (gmLineLoad b.gm lineNum).nextEntry ∧
        Releasing (gmLineLoad b.gm lineNum) e
      rw [(gmLineLoad_shape b.gm lineNum).nextEntry, gmLineLoad_eq]
      obtain ⟨hbanner, hreq⟩ := foldl_load_others (s := b.gm) hnot
      exact ⟨he, hrel.congr hbanner hreq⟩
  | lineFree lineNum =>
      show e < (gmLineFree b.gm lineNum).nextEntry ∧
        Releasing (gmLineFree b.gm lineNum) e
      rw [(gmLineFree_shape b.gm lineNum).nextEntry, gmLineFree_eq]
      obtain ⟨harq, hothers⟩ :=
        foldl_free_others (l := lineGames b.gm lineNum) (s := b.gm)
      by_cases hmem : e ∈ lineGames b.gm lineNum
      · refine ⟨(mem_lineGames hmem).2.2, (hguard e hmem).freed ?_
          (inFlight_congr harq)⟩
        exact foldl_free_state (lineGames_nodup b.gm lineNum) hmem
      · obtain ⟨he, hrel⟩ := h e (by simpa [AssetEvent.calls, hmem] using hlast)
        exact ⟨he, hrel.congr (hothers e hmem) (inFlight_congr harq)⟩
  | complete i =>
      obtain ⟨he, hrel⟩ := h e hlast
      exact ⟨by rw [AssetEvent.apply, arqComplete_nextEntry]; exact he,
        hrel.complete i⟩

/--
In every run whose frees all meet `FreeGuard`: an entry whose last call was a
free and that has no request in flight holds no buffer.
-/
theorem deferred_free_honoured
    {b : Browsing} (h : Reachable NoCalls (Guarded BrowsingStep FreeGuard) b)
    (e : Nat) (hlast : b.lastCall e = some .free)
    (hnone : b.gm.inFlight e = []) :
    (b.gm.banner e).state = .none ∨ (b.gm.banner e).state = .unloaded := by
  have hinv : FreesHonoured b :=
    h.invariant
      (fun b hb e hlast => absurd hlast (by rw [hb e]; simp))
      (fun _ _ hinv ⟨_, hguard, hs⟩ => hs.honoured hinv hguard)
  rcases (hinv e hlast).2 with ⟨hidle, _⟩ | ⟨_, hunload⟩
  · exact hidle
  · rw [hnone] at hunload
    cases hunload

/-- A line is freed, then request number 0 completes. -/
theorem free_then_complete (s : GmState) (lineNum : Nat) :
    Reachable NoCalls (anyStep BrowsingStep)
      ⟨arqComplete (gmLineFree s lineNum) 0,
        AssetEvent.calls s (fun _ => none) (.lineFree lineNum)⟩ := by
  have hstart : Reachable NoCalls (anyStep BrowsingStep) ⟨s, fun _ => none⟩ :=
    Reachable.start fun _ => rfl
  exact (hstart.step ⟨.lineFree lineNum, rfl⟩).step ⟨.complete 0, rfl⟩

/-- A request completes, then a line is freed whose games are at rest. -/
theorem complete_then_free
    (s : GmState) (lineNum : Nat)
    (hguard : ∀ e ∈ lineGames (arqComplete s 0) lineNum,
      Releasable (arqComplete s 0) e) :
    Reachable NoCalls (Guarded BrowsingStep FreeGuard)
      ⟨gmLineFree (arqComplete s 0) lineNum,
        AssetEvent.calls (arqComplete s 0) (fun _ => none)
          (.lineFree lineNum)⟩ := by
  have hstart : Reachable NoCalls (Guarded BrowsingStep FreeGuard)
      ⟨s, fun _ => none⟩ := Reachable.start fun _ => rfl
  exact (hstart.step ⟨.complete 0, trivial, rfl⟩).step
    ⟨.lineFree lineNum, hguard, rfl⟩

/--
The line of a game is freed while the game is in setup, then its setup
completes.  The free is forgotten and the buffer stays taken.
-/
theorem free_in_setup_forgotten :
    ∃ b, Reachable NoCalls (anyStep BrowsingStep) b ∧
      b.lastCall 0 = some .free ∧
      b.gm.inFlight 0 = [] ∧
      (b.gm.banner 0).state = .loaded ∧
      b.gm.used 0 = true := by
  refine ⟨_, free_then_complete oneInSetup 0, ?_, ?_, ?_, ?_⟩ <;>
    decide +kernel

/-- The same free once the setup has completed. -/
theorem deferred_free_after_setup :
    ∃ b, Reachable NoCalls (Guarded BrowsingStep FreeGuard) b ∧
      b.lastCall 0 = some .free ∧
      ((b.gm.banner 0).state = .none ∨ (b.gm.banner 0).state = .unloaded) := by
  have hline : lineGames (arqComplete oneInSetup 0) 0 = [0] := by
    decide +kernel
  have hstate : ((arqComplete oneInSetup 0).banner 0).state = .loaded := by
    decide +kernel
  have hnone : (arqComplete oneInSetup 0).inFlight 0 = [] := by
    decide +kernel
  have hguard : ∀ e ∈ lineGames (arqComplete oneInSetup 0) 0,
      Releasable (arqComplete oneInSetup 0) e := by
    intro e he
    rw [hline, List.mem_singleton] at he
    rw [he]
    exact Or.inl ⟨Or.inr hstate, hnone⟩
  have hrun := complete_then_free oneInSetup 0 hguard
  refine ⟨_, hrun, ?_, deferred_free_honoured hrun 0 ?_ ?_⟩ <;>
    decide +kernel

end Games
end Cubiboot
