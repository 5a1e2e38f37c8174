import Cubiboot.Aram.ArqRuns
import Cubiboot.Games.Ownership

/-!
# The game list over the ARAM request queue

The game list of `games.c` with the queue of `decomp_arq.c` below it, as on the consoles
that have no `ARQPostRequest` of their own.  What the functions of the list post goes into
the queue, and a callback that the queue calls is that of the request it calls it for.

The game list leaves open in which order requests complete.  The queue settles it:
`arq_backs_games` says that every callback is that of the request which was posted first of
those in flight, that a run over the queue is a run of the list, and that no request is
forgotten.
-/

namespace Cubiboot
namespace Games

open Runs Aram

/-- `owner` of a request. -/
def arqOwner : ArqCallback → Nat
  | .setup => 0x42585853
  | .unload => 0x49585855
  | .load => 0x4958584C

/-- The arguments of `dolphin_ARQPostRequest`; `data` has the addresses of the buffers. -/
def ArqPost.args (data : Option PoolSlot → Nat) (p : ArqPost) : Aram.ArqPost Nat ArqCallback where
  task := p.entry
  owner := arqOwner p.callback
  type :=
    match p.callback with
    | .setup | .unload => 0
    | .load => 1
  priority := arqPriorityLow
  source :=
    match p.callback with
    | .setup | .unload => data p.buf
    | .load => p.aramOffset
  dest :=
    match p.callback with
    | .setup | .unload => p.aramOffset
    | .load => data p.buf
  length := bnrPixeldataLen
  callback := some p.callback

/-- The list and the queue. -/
structure BackedGames where
  gm : GmState
  arq : ArqSystem Nat ArqCallback

/-- Posts one after the other. -/
def postAll
    (s : ArqSystem Nat ArqCallback) (posts : List (Aram.ArqPost Nat ArqCallback)) :
    ArqSystem Nat ArqCallback :=
  posts.foldl (fun s p =>
    { s with arq := arqPostRequest s.arq p, posted := s.posted ++ [p] }) s

/-- A call that posts what it adds to the requests in flight. -/
def BackedGames.call
    (data : Option PoolSlot → Nat) (b : BackedGames) (e : AssetEvent) : BackedGames where
  gm := e.apply b.gm
  arq := postAll b.arq (((e.apply b.gm).arq.drop b.gm.arq.length).map (ArqPost.args data))

/-- The request that a callback is called for. -/
def calledIndex (gm : GmState) (c : Aram.ArqCallback ArqCallback × Option Nat) : Nat :=
  gm.arq.findIdx fun p => decide ((Aram.ArqCallback.user p.callback, some p.entry) = c)

/-- The end of a transfer; the callbacks of the list post nothing. -/
def BackedGames.interrupt (b : BackedGames) (d : Dma) : BackedGames where
  gm := match arqCalled b.arq.arq with
    | some c => arqComplete b.gm (calledIndex b.gm c)
    | none => b.gm
  arq := b.arq.served d []

/-- The events of the list that are calls. -/
def AssetEvent.IsCall : AssetEvent → Prop
  | .complete _ => False
  | _ => True

/-- The steps of the list over the queue, each call meeting `AssetGuard`. -/
inductive BackedStep (data : Option PoolSlot → Nat) : BackedGames → BackedGames → Prop
  | call {b : BackedGames} (e : AssetEvent) (hcall : e.IsCall) (hguard : AssetGuard b.gm e) :
      BackedStep data b (b.call data e)
  | interrupt {b : BackedGames} {d : Dma} (hdma : b.arq.arq.dma = some d) :
      BackedStep data b (b.interrupt d)

/-- An empty list over a queue that has been initialised. -/
def BackedGames.Starts (b : BackedGames) : Prop :=
  EmptyList b.gm ∧ b.arq.Starts

section Calls

variable {s : GmState}

/-- A load adds to the requests in flight. -/
theorem load_adds (s : GmState) (e : Nat) : s.arq <+: (gmBannerLoad s e).arq := by
  by_cases hst : (s.banner e).state = .none ∨ (s.banner e).state = .loaded
  · rw [gmBannerLoad_idle hst]
  · cases hslot : s.freeSlot with
    | none => rw [(gmBannerLoad_exhausted hslot hst).arq]
    | some k =>
        rw [(gmBannerLoad_effect hslot hst).arq]
        exact List.prefix_append _ _

/-- A free adds none. -/
theorem free_adds (s : GmState) (e : Nat) : s.arq <+: (gmBannerFree s e).arq := by
  cases hst : (s.banner e).state with
  | none => rw [gmBannerFree_idle (Or.inl hst)]
  | unloading => rw [gmBannerFree_idle (Or.inr hst)]
  | setup => rw [(gmBannerFree_deferred (Or.inr hst)).arq]
  | loading => rw [(gmBannerFree_deferred (Or.inl hst)).arq]
  | unloaded => rw [(gmBannerFree_effect (Or.inl hst)).arq]
  | loaded => rw [(gmBannerFree_effect (Or.inr hst)).arq]

theorem foldl_adds {f : GmState → Nat → GmState} (hf : ∀ s e, s.arq <+: (f s e).arq)
    (l : List Nat) (s : GmState) : s.arq <+: (l.foldl f s).arq := by
  induction l generalizing s with
  | nil => exact List.prefix_refl _
  | cons e l ih => exact (hf s e).trans (ih _)

/-- A call adds to the requests in flight. -/
theorem call_adds {e : AssetEvent} (hcall : e.IsCall) (hguard : AssetGuard s e) :
    s.arq <+: (e.apply s).arq := by
  cases e with
  | enumerate aramOffset f =>
      show s.arq <+: (gmCheckFile ⟨s, aramOffset, []⟩ f).gm.arq
      rcases gmCheckFile_cases ⟨s, aramOffset, []⟩ f with hsame | hnew | ⟨hwant, heq⟩
      · rw [hsame]
      · rw [hnew.arq]
      · obtain ⟨k, hslot, _⟩ := hguard hwant
        rw [heq, (gmCheckGame_effect (c := ⟨s, aramOffset, []⟩) (f := f) hwant.2.2 hslot).arq]
        exact List.prefix_append _ _
  | lineLoad lineNum =>
      show s.arq <+: (gmLineLoad s lineNum).arq
      rw [gmLineLoad_eq]
      exact foldl_adds load_adds _ s
  | lineFree lineNum =>
      show s.arq <+: (gmLineFree s lineNum).arq
      rw [gmLineFree_eq]
      exact foldl_adds free_adds _ s
  | complete i => exact absurd hcall id

/-- No two requests in flight are of one entry. -/
theorem Owned.arq_nodup (h : Owned s) : (s.arq.map ArqPost.entry).Nodup := by
  rw [List.nodup_iff_count_le_one]
  intro e
  have hcount : (s.arq.map ArqPost.entry).count e = (s.inFlight e).length := by
    rw [GmState.inFlight, List.length_map, List.count, List.countP_map,
      List.countP_eq_length_filter]
    congr 2
  rw [hcount, h.requests e]
  cases (s.banner e).state <;> decide

end Calls

/-- The callback that is called for a request. -/
def ArqPost.call (p : ArqPost) : Aram.ArqCallback ArqCallback × Option Nat :=
  (.user p.callback, some p.entry)

/-- The queue has the requests in flight, in order, and none of high priority. -/
structure Matches (gm : GmState) (a : ArqPlan Nat ArqCallback) : Prop where
  high : a.high = []
  low : a.low.map ArqJob.call = gm.arq.map ArqPost.call

/-- The invariant of the list over the queue. -/
structure BackedInv (b : BackedGames) : Prop where
  list : Reachable EmptyList (Guarded AssetStep AssetGuard) b.gm
  queue : b.arq.Reached
  plan : ∃ a, Serving b.arq a ∧ Matches b.gm a

section Plan

variable {a : ArqPlan Nat ArqCallback} {gm : GmState}
variable {data : Option PoolSlot → Nat} {s : ArqSystem Nat ArqCallback}

/-- The outstanding requests are those of the entries in flight. -/
theorem Matches.tasks (h : Matches gm a) : a.tasks = gm.arq.map ArqPost.entry := by
  have hcalls := congrArg (List.map Prod.snd) h.low
  simp only [List.map_map] at hcalls
  have hsome : (a.low.map ArqJob.task).map some = (gm.arq.map ArqPost.entry).map some := by
    rw [List.map_map, List.map_map]
    exact hcalls
  rw [ArqPlan.tasks, h.high, List.nil_append]
  exact (List.map_injective_iff.2 (Option.some_injective Nat)) hsome

theorem post_high (hhi : a.high = []) {p : Aram.ArqPost Nat ArqCallback}
    (hlow : p.priority = arqPriorityLow) :
    (a.post p).high = [] ∧ (a.post p).low = a.low ++ [p.job] := by
  have hne : p.priority ≠ arqPriorityHigh := by
    rw [hlow]
    decide
  have hadd : (a.add p).high = [] ∧ (a.add p).low = a.low ++ [p.job] := by
    rw [add_high, add_low, if_pos hlow, if_neg hne, hhi]
    exact ⟨rfl, rfl⟩
  rw [ArqPlan.post]
  split
  · rename_i hidle
    have hpending : (a.add p).pendingHi = none := add_pendingHi.trans hidle.1
    rw [start_high hpending, start_low hpending]
    exact hadd
  · exact hadd

/-- What a call posts goes into the queue. -/
theorem postAll_serving (data : Option PoolSlot → Nat) {posts : List ArqPost}
    (hreached : s.Reached) (ha : Serving s a) (hhi : a.high = [])
    (hfree : (a.tasks ++ posts.map ArqPost.entry).Nodup) :
    (postAll s (posts.map (ArqPost.args data))).Reached ∧
      ∃ a', Serving (postAll s (posts.map (ArqPost.args data))) a' ∧ a'.high = [] ∧
        a'.low.map ArqJob.call = a.low.map ArqJob.call ++ posts.map ArqPost.call := by
  induction posts generalizing s a with
  | nil => exact ⟨hreached, a, ha, hhi, (List.append_nil _).symm⟩
  | cons p posts ih =>
      rw [List.map_cons, List.nodup_append] at hfree
      have hnot : p.entry ∉ a.tasks := fun hin =>
        hfree.2.2 p.entry hin p.entry List.mem_cons_self rfl
      have hpost : s.Free (p.args data).task := (ha.accounts.free_iff _).2 hnot
      obtain ⟨hhigh, hlow⟩ := post_high (p := p.args data) hhi rfl
      have htasks : (a.post (p.args data)).tasks = a.tasks ++ [p.entry] := by
        rw [ArqPlan.tasks, hhigh, hlow, ArqPlan.tasks, hhi]
        simp [ArqPost.args, Aram.ArqPost.job]
      obtain ⟨hreached', a', ha', hhigh', hlow'⟩ := ih
        (hreached.step ⟨.post _, .post (p.args data) hpost⟩) (ha.post hpost) hhigh (by
          rw [htasks, List.append_assoc, List.nodup_append]
          exact hfree)
      refine ⟨hreached', a', ha', hhigh', ?_⟩
      rw [hlow', hlow, List.map_append, List.append_assoc]
      rfl

/-- A call keeps the invariant. -/
theorem BackedInv.call {b : BackedGames} (h : BackedInv b) {e : AssetEvent}
    (hcall : e.IsCall) (hguard : AssetGuard b.gm e) : BackedInv (b.call data e) := by
  have hlist := h.list.step ⟨e, hguard, rfl⟩
  obtain ⟨a, ha, hmatch⟩ := h.plan
  have howned : Owned (e.apply b.gm) :=
    (hlist.invariant (fun _ => EmptyList.owned)
      (fun _ _ hinv ⟨_, hg, hs⟩ => hs.owned hinv hg)).1
  obtain ⟨posts, hposts⟩ := call_adds hcall hguard
  have hdrop : (e.apply b.gm).arq.drop b.gm.arq.length = posts := by
    rw [← hposts, List.drop_left]
  have hnodup := howned.arq_nodup
  rw [← hposts, List.map_append, ← hmatch.tasks] at hnodup
  obtain ⟨hreached, a', ha', hhigh, hlow⟩ :=
    postAll_serving data h.queue ha hmatch.high hnodup
  refine ⟨hlist, ?_, a', ?_, hhigh, ?_⟩
  · rw [BackedGames.call, hdrop]
    exact hreached
  · rw [BackedGames.call, hdrop]
    exact ha'
  · show _ = (e.apply b.gm).arq.map ArqPost.call
    rw [hlow, hmatch.low, ← hposts, List.map_append]

/-- The end of a transfer, seen from the plan. -/
theorem interrupt_low (hhi : a.high = []) :
    (a.interrupt []).high = [] ∧
      (a.interrupt []).low = if a.completes.isSome then a.low.tail else a.low := by
  have hpending : a.pendingHi = none := by
    cases hp : a.pendingHi with
    | none => rfl
    | some j =>
        rw [high_some hp] at hhi
        cases hhi
  rw [ArqPlan.interrupt, ArqPlan.completes, hpending]
  cases hlo : a.pendingLo with
  | none => exact ⟨(start_high hpending).trans hhi, start_low hpending⟩
  | some q =>
      obtain ⟨j, sent⟩ := q
      by_cases hl : j.Last sent
      · have hposts : j.callback.posts ([] : List (Aram.ArqPost Nat ArqCallback)) = [] := by
          cases j.callback <;> rfl
        simp only [if_pos hl, hposts, List.foldl_nil, Option.isSome_some, if_true]
        rw [start_high rfl, start_low rfl, low_some hlo]
        exact ⟨high_none hpending ▸ hhi, rfl⟩
      · simp only [if_neg hl, Option.isSome_none, Bool.false_eq_true, if_false]
        exact ⟨(start_high hpending).trans hhi, start_low hpending⟩

/-- The job that a transfer completes is the first of its priority. -/
theorem completes_first {j : ArqJob Nat ArqCallback} {a' : ArqPlan Nat ArqCallback}
    (hhi : a.high = []) (h : a.completes = some (j, a')) : ∃ rest, a.low = j :: rest := by
  have hpending : a.pendingHi = none := by
    cases hp : a.pendingHi with
    | none => rfl
    | some j =>
        rw [high_some hp] at hhi
        cases hhi
  rw [ArqPlan.completes, hpending] at h
  cases hlo : a.pendingLo with
  | none =>
      rw [hlo] at h
      cases h
  | some q =>
      rw [hlo] at h
      by_cases hl : q.1.Last q.2
      · simp only [if_pos hl] at h
        cases h
        exact ⟨_, low_some hlo⟩
      · simp only [if_neg hl] at h
        cases h

/-- The request that is called back is the first of those in flight. -/
theorem called_first (ha : Serving s a) (hmatch : Matches gm a)
    {c : Aram.ArqCallback ArqCallback × Option Nat} (hc : arqCalled s.arq = some c) :
    ∃ p rest, gm.arq = p :: rest ∧ c = p.call := by
  rw [ha.represents.called] at hc
  obtain ⟨⟨j, a'⟩, hcompletes, rfl⟩ := Option.map_eq_some_iff.1 hc
  obtain ⟨rest, hlow⟩ := completes_first hmatch.high hcompletes
  have hcalls := hmatch.low
  rw [hlow, List.map_cons] at hcalls
  cases harq : gm.arq with
  | nil =>
      rw [harq] at hcalls
      cases hcalls
  | cons p ps =>
      rw [harq, List.map_cons] at hcalls
      exact ⟨p, ps, rfl, (List.cons.inj hcalls).1⟩

/-- The end of a transfer keeps the invariant. -/
theorem BackedInv.interrupt {b : BackedGames} (h : BackedInv b) {d : Dma}
    (hdma : b.arq.arq.dma = some d) : BackedInv (b.interrupt d) := by
  obtain ⟨a, ha, hmatch⟩ := h.plan
  have hposts : arqPosts b.arq.arq [] = [] := by
    rw [arqPosts]
    split
    · rename_i f _ _
      cases f <;> rfl
    · rfl
  have hfree : (b.arq.ended d).FreeEach (arqPosts b.arq.arq []) := by
    rw [hposts]
    trivial
  obtain ⟨hhigh, hlow⟩ := interrupt_low hmatch.high
  have hcalled := ha.represents.called
  have hqueue : (b.arq.served d []).Reached :=
    h.queue.step ⟨.interrupt [], .interrupt [] hdma hfree⟩
  have hserving := ha.interrupt hdma hfree
  cases hc : arqCalled b.arq.arq with
  | none =>
      rw [hc] at hcalled
      have hcompletes : a.completes = none := Option.map_eq_none_iff.1 hcalled.symm
      rw [hcompletes] at hlow
      have hgm : (b.interrupt d).gm = b.gm := by
        rw [BackedGames.interrupt, hc]
      refine ⟨hgm ▸ h.list, hqueue, a.interrupt [], hserving, hhigh, ?_⟩
      rw [hlow, hgm]
      exact hmatch.low
  | some c =>
      obtain ⟨p, rest, harq, hpc⟩ := called_first ha hmatch hc
      rw [hc] at hcalled
      have hcompletes : a.completes.isSome := by
        cases hnone : a.completes with
        | none =>
            rw [hnone] at hcalled
            cases hcalled
        | some q => rfl
      have hindex : calledIndex b.gm c = 0 := by
        rw [calledIndex, harq, List.findIdx_cons, hpc]
        simp [ArqPost.call]
      have hgm : (b.interrupt d).gm = arqComplete b.gm 0 := by
        rw [BackedGames.interrupt, hc]
        show arqComplete b.gm (calledIndex b.gm c) = _
        rw [hindex]
      have hnext : (arqComplete b.gm 0).arq = rest := by
        have hp : b.gm.arq[0]? = some p := by
          rw [harq]
          rfl
        rw [(arqComplete_effect hp).arq, harq]
        rfl
      refine ⟨?_, hqueue, a.interrupt [], hserving, hhigh, ?_⟩
      · rw [hgm]
        exact h.list.step ⟨.complete 0, trivial, rfl⟩
      · rw [hlow, if_pos hcompletes, hgm, hnext, List.map_tail, hmatch.low, harq]
        rfl

theorem BackedGames.Starts.inv {b : BackedGames} (h : b.Starts) : BackedInv b := by
  obtain ⟨hlist, task, tailHi, tailLo, hqueue⟩ := h
  refine ⟨.start hlist, .start ⟨task, tailHi, tailLo, hqueue⟩, ?_⟩
  obtain ⟨a, ha⟩ := ArqSystem.Reached.serving (s := b.arq) (.start ⟨task, tailHi, tailLo, hqueue⟩)
  have hrest : b.arq.arq.dma = none := by
    rw [hqueue]
    rfl
  have htasks := ha.rest_iff.1 hrest
  rw [ArqPlan.tasks, List.map_eq_nil_iff, List.append_eq_nil_iff] at htasks
  refine ⟨a, ha, htasks.1, ?_⟩
  rw [htasks.2, hlist.arq]
  rfl

/--
A run of the list over the queue is a run of the list, in which the requests complete in
the order in which they were posted; and a request in flight is always in transfer or
behind one that is.
-/
theorem arq_backs_games {b : BackedGames}
    (h : Reachable BackedGames.Starts (BackedStep data) b) :
    Reachable EmptyList (Guarded AssetStep AssetGuard) b.gm ∧
      (∀ c, arqCalled b.arq.arq = some c → ∃ p rest, b.gm.arq = p :: rest ∧ c = p.call) ∧
      (b.arq.arq.dma = none ↔ b.gm.arq = []) ∧
      b.arq.arq.cut = [] := by
  have hinv : BackedInv b := by
    refine h.invariant (fun _ => BackedGames.Starts.inv) fun s s' hs hstep => ?_
    cases hstep with
    | call e hcall hguard => exact hs.call hcall hguard
    | interrupt hdma => exact hs.interrupt hdma
  obtain ⟨hlist, hqueue, a, ha, hmatch⟩ := hinv
  refine ⟨hlist, fun c hc => called_first ha hmatch hc, ?_, ha.represents.cut⟩
  rw [ha.rest_iff, hmatch.tasks, List.map_eq_nil_iff]

end Plan

/-- An empty list over a queue just initialised. -/
def backedStart : BackedGames where
  gm := .blank
  arq := ⟨arqInit (fun _ => ⟨none, 0, 0, 0, 0, 0, .hack⟩) none none, [], [], [], [], []⟩

/-- Every buffer at one address. -/
def sampleData (_ : Option PoolSlot) : Nat := 0x80500000

/-- One game, its banner on the way to auxiliary RAM. -/
def backedInSetup : BackedGames :=
  backedStart.call sampleData (.enumerate aramStart sampleGame)

theorem arq_backs_games_setup :
    backedInSetup.arq.arq.dma = none ↔ backedInSetup.gm.arq = [] := by
  have hstart : backedStart.Starts := ⟨blank_empty, _, _, _, rfl⟩
  have hguard : AssetGuard backedStart.gm (.enumerate aramStart sampleGame) := by
    refine fun _ => ⟨0, by decide +kernel, fun e => ?_⟩
    show GmLoadState.none = .unloaded → _
    intro hst
    cases hst
  have hreached : Reachable BackedGames.Starts (BackedStep sampleData) backedInSetup :=
    (Reachable.start hstart).step (.call _ trivial hguard)
  exact (arq_backs_games hreached).2.2.1

end Games
end Cubiboot
