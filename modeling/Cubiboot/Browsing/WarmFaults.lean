import Cubiboot.Browsing.Walk
import Cubiboot.Foundations.Worklist
import Cubiboot.Worker.Threads

/-!
# Faults under the walk

A directory that cannot be opened, or whose status is not good, is passed over, and
`gm_warm_card` goes on with the others; so it does after a game that cannot be read.
But a call of `dvd_custom_readdir` that fails ends in `ipl_panic`, and the worker does
not exit.

Results: `warmCardBody_unfailing`, a pass without such a fault returns or leaves less to
do; `warmCardBody_failing`, a pass with one never returns; `gmWarmCard_returns`, the walk
returns if and only if it comes to no fault; `warm_returns_iff`, the same of the worker,
with the thread that waits for it; and `failing_read_hangs_walk`, an empty card whose one
read fails.
-/

namespace Cubiboot
namespace Browsing

open CString Disc FuelLoop Games Worklist Cubiboot.Worker

theorem rootPath_length : rootPath.length < 128 := by
  decide

/-- The variables of the walk before its loop. -/
def walkStart (buffers : InfoBuffers) (gm : GmState) : WalkState :=
  ⟨[⟨rootPath, rootPath_length⟩], 0, false, buffers, gm, []⟩

section Faults

variable (bnrOffsets : BnrOffsets) (dir : Path → Option (List FileEntry)) (c : WalkCalls)
variable (skipDir : Option Path) (buffers : InfoBuffers) (gm : GmState)

/--
The end of `gm_thread_worker`, from the walk on: `warm_pending`, and the thread when it
has exited.
-/
def gmThreadWorkerEnd (warmPending : Bool) (thread : OSThread) (fuel : Nat) :
    Option (Bool × OSThread) :=
  if warmPending then do
    let (through, _) ← gmWarmCard bnrOffsets dir c skipDir buffers gm fuel
    some (!through, osExitThread thread)
  else
    some (false, osExitThread thread)

/-- The loop of the walk comes to a state. -/
def Comes (s : WalkState) : Prop :=
  Relation.ReflTransGen (fun s s' => warmCardBody bnrOffsets dir c skipDir s = some (.inl s'))
    (walkStart buffers gm) s

/--
Where a directory is opened next its entries can be read and their paths fit, and those
of its directories do with the slash, if the walk comes to push them.
-/
def Unfailing (s : WalkState) : Prop :=
  ∀ top rest entries, s.pathStack = top :: rest → c.stop s.listings = false →
    Opens (c.dir s.listings) dir top.1 entries →
      (∀ i < readdirCalls 0 entries, (c.dir s.listings).readdirFails i = false) ∧
        (∀ entry ∈ Games.gmListFiles top.1 entries, entry.path.length < 128) ∧
        ((skipDir = some top.1 ∨ ∀ i < (gamePaths (Games.gmListFiles top.1 entries)).length,
            c.stopGame s.listings i = false) →
          ∀ subdir ∈ subdirPaths (Games.gmListFiles top.1 entries), subdir.length < 128)

/-- How much there is left for the walk, at most. -/
def walkSize (s : WalkState) : Nat :=
  pendingSize maxPathEntries (fun path : Path => 128 - path.length) (s.pathStack.map (·.1))

variable {bnrOffsets dir c skipDir buffers gm} {s s' : WalkState} {top : PathArray}
variable {rest : List PathArray} {entries : List FileEntry}

/-- After `ipl_panic` nothing is returned. -/
theorem run_panicked (h : s.panicked = true) (fuel : Nat) :
    run (warmCardBody bnrOffsets dir c skipDir) fuel s = none := by
  refine run_never (fun s => s.panicked = true) (fun s hs => ⟨s, ?_, hs⟩) fuel h
  rw [warmCardBody, if_pos hs]

/-- There is not more in the directories of one than in it. -/
theorem pushed_size (hopens : ∀ subdir ∈ subdirPaths (Games.gmListFiles top.1 entries),
      subdir.length < 128) :
    pendingSize maxPathEntries (fun path : Path => 128 - path.length)
        (pushPaths (rest.map (·.1)) (subdirPaths (Games.gmListFiles top.1 entries))) <
      pendingSize maxPathEntries (fun path : Path => 128 - path.length)
        ((top :: rest).map (·.1)) := by
  refine (pendingSize_sublist (pushPaths_sublist _ _)).trans_lt ?_
  rw [pendingSize_append, List.map_cons, pendingSize, Nat.add_lt_add_iff_right]
  refine pendingSize_children ?_ fun subdir hsubdir => ?_
  · rw [List.length_reverse, subdirPaths, List.length_map, gmListFiles_shown]
    refine (List.length_filter_le _ _).trans ?_
    rw [List.length_map]
    exact List.length_take_le _ _
  · rw [List.mem_reverse] at hsubdir
    have hfits := hopens subdir hsubdir
    simp only [subdirPaths, gmListFiles_shown, List.mem_map, List.mem_filter] at hsubdir
    obtain ⟨_, ⟨⟨ent, _, rfl⟩, _⟩, rfl⟩ := hsubdir
    simp only [List.length_append, List.length_singleton] at hfits ⊢
    omega

theorem walkSize_rest (hstack : s.pathStack = top :: rest) (hpath : s'.pathStack = rest) :
    walkSize s' < walkSize s := by
  have hpos : ∀ n d, 0 < treeSize n d := by
    intro n d
    cases d with
    | zero => exact Nat.one_pos
    | succ d => exact Nat.succ_pos _
  have hsize := hpos maxPathEntries (128 - top.1.length)
  rw [walkSize, walkSize, hstack, hpath, List.map_cons, pendingSize]
  omega

/-- A pass without a fault returns, or goes on with less left. -/
theorem warmCardBody_unfailing (bnrOffsets : BnrOffsets) (h : Unfailing dir c skipDir s)
    (hpanicked : s.panicked = false) :
    (∃ r, warmCardBody bnrOffsets dir c skipDir s = some (.inr r)) ∨
      ∃ s', warmCardBody bnrOffsets dir c skipDir s = some (.inl s') ∧ s'.panicked = false ∧
        walkSize s' < walkSize s := by
  cases hstack : s.pathStack with
  | nil =>
      refine Or.inl ⟨(true, s), ?_⟩
      simp only [warmCardBody, hpanicked, hstack, Bool.false_eq_true, if_false]
  | cons top rest =>
      cases hstop : c.stop s.listings with
      | true =>
          refine Or.inl ⟨(false, s), ?_⟩
          simp only [warmCardBody, hpanicked, hstack, hstop, Bool.false_eq_true, if_false, if_true]
      | false =>
          by_cases hopens : ∃ entries, Opens (c.dir s.listings) dir top.1 entries
          · obtain ⟨entries, hopens⟩ := hopens
            obtain ⟨hreads, hfits, hsubdirs⟩ := h top rest entries hstack hstop hopens
            obtain ⟨listing, hlisting⟩ := exists_listing.2 hfits
            have hlist := (listDir_eq_listing hopens).2
              ⟨hreads, hlisting.trans (gmListFiles_shown _ _)⟩
            rcases hwarmed : warmListing bnrOffsets c skipDir s.listings top.1 listing
              (s.listing rest top.1) with ⟨through, next⟩
            cases through with
            | false =>
                refine Or.inl ⟨(false, next), ?_⟩
                rw [warmCardBody_top hpanicked hstack hstop, hlist]
                simp only [hwarmed]
            | true =>
                have hthrough := (warmListing_through hwarmed).1 rfl
                rw [hlisting] at hthrough
                have hsubdirs := hsubdirs hthrough
                obtain ⟨pushed, hpushed⟩ :=
                  (exists_pushSubdirs rest).2 (hlisting.symm ▸ hsubdirs)
                refine Or.inr ⟨{ next with pathStack := pushed }, ?_, ?_, ?_⟩
                · rw [warmCardBody_pushes hpanicked hstack hstop hlist hwarmed, hpushed]
                  rfl
                · exact (warmListing_walk hwarmed).2.2.trans hpanicked
                · have hvalue := (pushSubdirs_eq_some.1 hpushed).2
                  rw [hlisting] at hvalue
                  rw [walkSize, walkSize, hstack, hvalue]
                  exact pushed_size hsubdirs
          · have hclosed := listDir_closed (not_exists.1 hopens)
            refine Or.inr ⟨s.listing rest top.1, ?_, hpanicked, walkSize_rest hstack rfl⟩
            rw [warmCardBody_top hpanicked hstack hstop, hclosed]

/-- After a pass with a fault the walk does not return. -/
theorem warmCardBody_failing (bnrOffsets : BnrOffsets) (h : ¬ Unfailing dir c skipDir s)
    (hpanicked : s.panicked = false) :
    warmCardBody bnrOffsets dir c skipDir s = none ∨
      ∃ s', warmCardBody bnrOffsets dir c skipDir s = some (.inl s') ∧ s'.panicked = true := by
  simp only [Unfailing, not_forall] at h
  obtain ⟨top, rest, entries, hstack, hstop, hopens, hfault⟩ := h
  rw [warmCardBody_top hpanicked hstack hstop]
  cases hlist : listDir (c.dir s.listings) dir top.1 with
  | error stop =>
      cases stop with
      | panic => exact Or.inr ⟨_, rfl, rfl⟩
      | overrun => exact Or.inl rfl
  | ok listed =>
      cases listed with
      | none =>
          rw [listDir_opens hopens, map_eq_ok] at hlist
          obtain ⟨_, _, hnone⟩ := hlist
          cases hnone
      | some listing =>
          obtain ⟨hreads, hvalue⟩ := (listDir_eq_listing hopens).1 hlist
          rw [← gmListFiles_shown] at hvalue
          have hfits := exists_listing.1 ⟨listing, hvalue⟩
          obtain ⟨hthrough, hsubdirs⟩ :=
            Classical.not_imp.1 fun hall => hfault ⟨hreads, hfits, hall⟩
          rw [← hvalue] at hthrough hsubdirs
          rcases hnext : warmListing bnrOffsets c skipDir s.listings top.1 listing
            (s.listing rest top.1) with ⟨through, next⟩
          obtain rfl : through = true := (warmListing_through hnext).2 hthrough
          cases hpushed : pushSubdirs next.pathStack listing with
          | none =>
              refine Or.inl ?_
              simp only [hnext, hpushed]
              rfl
          | some pushed =>
              exact absurd ((exists_pushSubdirs _).1 ⟨pushed, hpushed⟩) hsubdirs

/-- A walk that returns has come to no fault. -/
theorem run_unfailing {fuel : Nat} {r : Bool × WalkState} (hpanicked : s.panicked = false)
    (hrun : run (warmCardBody bnrOffsets dir c skipDir) fuel s = some r)
    (hcomes : Relation.ReflTransGen
      (fun s s' => warmCardBody bnrOffsets dir c skipDir s = some (.inl s')) s s') :
    Unfailing dir c skipDir s' := by
  induction fuel generalizing s with
  | zero =>
      cases hrun
  | succ fuel ih =>
      have hhere : Unfailing dir c skipDir s := by
        by_contra hfault
        rcases warmCardBody_failing bnrOffsets hfault hpanicked with
          hstuck | ⟨next, hnext, hpanic⟩
        · rw [run, hstuck] at hrun
          cases hrun
        · rw [run, hnext] at hrun
          exact absurd hrun (by simp [run_panicked hpanic])
      rcases Relation.ReflTransGen.cases_head hcomes with rfl | ⟨next, hnext, hrest⟩
      · exact hhere
      · rw [run, hnext] at hrun
        refine ih ?_ hrun hrest
        cases hpanic : next.panicked with
        | false => rfl
        | true => exact absurd hrun (by simp [run_panicked hpanic])

theorem gmWarmCard_eq (fuel : Nat) :
    gmWarmCard bnrOffsets dir c skipDir buffers gm fuel =
      run (warmCardBody bnrOffsets dir c skipDir) fuel (walkStart buffers gm) := by
  have hbottom : strcpy 128 rootPath = some ⟨rootPath, rootPath_length⟩ := strcpy_eq_some.2 rfl
  rw [gmWarmCard, hbottom]
  rfl

/-- The walk returns if, and only if, it comes to no fault. -/
theorem gmWarmCard_returns :
    (∃ fuel r, gmWarmCard bnrOffsets dir c skipDir buffers gm fuel = some r) ↔
      ∀ s, Comes bnrOffsets dir c skipDir buffers gm s → Unfailing dir c skipDir s := by
  simp only [gmWarmCard_eq]
  constructor
  · rintro ⟨fuel, r, hrun⟩ s hcomes
    exact run_unfailing rfl hrun hcomes
  · intro hnone
    refine ⟨walkSize (walkStart buffers gm) + 1, run_total
      (fun s => Comes bnrOffsets dir c skipDir buffers gm s ∧ s.panicked = false) walkSize ?_
      ⟨.refl, rfl⟩ (Nat.lt_succ_self _)⟩
    rintro s ⟨hcomes, hpanicked⟩
    refine (warmCardBody_unfailing bnrOffsets (hnone s hcomes)
      hpanicked).imp_right ?_
    rintro ⟨next, hnext, hgoes, hless⟩
    exact ⟨next, hnext, ⟨hcomes.tail hnext, hgoes⟩, hless⟩

/-- The worker exits when the walk returns. -/
theorem gmThreadWorkerEnd_returns {thread : OSThread} :
    (∃ fuel last, gmThreadWorkerEnd bnrOffsets dir c skipDir buffers gm true thread fuel =
        some last ∧ last.2.joinQueue = false) ↔
      ∃ fuel r, gmWarmCard bnrOffsets dir c skipDir buffers gm fuel = some r := by
  have hwoken : (osExitThread thread).joinQueue = false := by
    rw [osExitThread]
    split <;> rfl
  simp only [gmThreadWorkerEnd, if_true, Option.bind_eq_bind, Option.bind_eq_some_iff]
  constructor
  · rintro ⟨fuel, last, ⟨r, hr, _⟩, _⟩
    exact ⟨fuel, r, hr⟩
  · rintro ⟨fuel, r, hr⟩
    exact ⟨fuel, _, ⟨r, hr, rfl⟩, hwoken⟩

end Faults

/--
The walk returns, and the worker exits and wakes who waits for it, if and only if no
directory that is opened on the way has a read of its entries that fails, or a path that
does not fit.
-/
theorem warm_returns_iff (bnrOffsets : BnrOffsets) (dir : Path → Option (List FileEntry))
    (c : WalkCalls) (skipDir : Option Path) (buffers : InfoBuffers) (gm : GmState)
    (thread : OSThread) :
    ((∃ fuel r, gmWarmCard bnrOffsets dir c skipDir buffers gm fuel = some r) ∧
        ∃ fuel last, gmThreadWorkerEnd bnrOffsets dir c skipDir buffers gm true thread fuel =
          some last ∧ last.2.joinQueue = false) ↔
      ∀ s, Comes bnrOffsets dir c skipDir buffers gm s → Unfailing dir c skipDir s := by
  rw [gmThreadWorkerEnd_returns, and_self, gmWarmCard_returns]

/-- A read of the root directory that fails. -/
def failingReads : WalkCalls where
  dir := fun _ => ⟨false, false, fun _ => true⟩
  stop := fun _ => false
  game := fun _ _ => ⟨⟨.refused, 0, fun _ => 0, fun _ => .ok⟩, ⟨false, 0, fun _ => 0⟩⟩
  stopGame := fun _ _ => false

/-- The walk of an empty card does not return when its one read fails. -/
theorem failing_read_hangs_walk :
    ¬ ∃ fuel r, gmWarmCard [] (fun path => if path = rootPath then some [] else none)
      failingReads none ⟨fun _ => 0, fun _ => 0, fun _ => 0⟩ .blank fuel = some r := by
  intro hreturns
  obtain ⟨hreads, _⟩ :=
    gmWarmCard_returns.1 hreturns _ .refl ⟨rootPath, rootPath_length⟩ [] [] rfl rfl
      ⟨rfl, rfl, rfl⟩
  cases hreads 0 (by decide)

end Browsing
end Cubiboot
