import Cubiboot.Foundations.Runs
import Cubiboot.Foundations.SlotPool
import Cubiboot.Games.Lines

/-!
# Ownership of banner assets

Who holds which buffer of the pool, and which requests are in flight.  `Owned`
is kept by every step whose `AssetGuard` holds: no load finds a banner still in
transfer, no placement finds the pool exhausted, and no buffer is handed out to
which an unloaded entry still points.

Results: `OwnedExcept.change`, the change of one banner, with an exemption for the
entries that are still to come; `Owned.free` and `Owned.complete`, one for each kind of
step; `OwnedExcept.request`, the request a banner waits for; `asset_ownership`, whole
runs.
-/

namespace Cubiboot
namespace Games

open SlotPool Runs

/-- What happens to the game list, each call being one step. -/
inductive AssetEvent where
  /-- One pass of the loop of `gm_check_files`. -/
  | enumerate (aramOffset : Nat) (f : ListedFile)
  | lineLoad (lineNum : Nat)
  | lineFree (lineNum : Nat)
  /-- Completion of request number `i` of those in flight. -/
  | complete (i : Nat)

/-- The state after an event. -/
def AssetEvent.apply (s : GmState) : AssetEvent → GmState
  | .enumerate aramOffset f => (gmCheckFile ⟨s, aramOffset, []⟩ f).gm
  | .lineLoad lineNum => gmLineLoad s lineNum
  | .lineFree lineNum => gmLineFree s lineNum
  | .complete i => arqComplete s i

/-- The step relation of the game list. -/
def AssetStep (s : GmState) (a : AssetEvent) (s' : GmState) : Prop :=
  s' = a.apply s

/-- An empty list over a pool that `gm_init_heap` has cleared. -/
structure EmptyList (s : GmState) : Prop where
  count : s.gmEntryCount = 0
  entry : ∀ e, s.banner e = .zero
  pool : ∀ k, s.used k = false
  arq : s.arq = []

/-- A banner in transfer. -/
def GmLoadState.Busy (st : GmLoadState) : Prop :=
  st = .setup ∨ st = .loading ∨ st = .unloading

/-- A banner without a buffer. -/
def GmLoadState.Idle (st : GmLoadState) : Prop :=
  st = .none ∨ st = .unloaded

instance (st : GmLoadState) : Decidable st.Busy :=
  inferInstanceAs (Decidable (_ ∨ _ ∨ _))

instance (st : GmLoadState) : Decidable st.Idle :=
  inferInstanceAs (Decidable (_ ∨ _))

/-- The buffer a banner holds. -/
def GmBanner.holds (b : GmBanner) : Option PoolSlot :=
  if b.state.Idle then none else b.buf

/-- The requests that a banner in this state has in flight. -/
def GmLoadState.requests : GmLoadState → List ArqCallback
  | .setup => [.setup]
  | .unloading => [.unload]
  | .loading => [.load]
  | _ => []

/--
The invariant of the assets.  `stale` leaves out the entries of `exempt`, which
are about to be loaded.
-/
structure OwnedExcept (s : GmState) (exempt : List Nat) : Prop where
  accounts : Accounts (fun e => (s.banner e).holds) s.used
  requests : ∀ e, s.inFlight e = (s.banner e).state.requests
  buffered : ∀ e, ¬ (s.banner e).state.Idle → ∃ k, (s.banner e).buf = some k
  stale : ∀ e k, e ∉ exempt → (s.banner e).state = .unloaded →
    (s.banner e).buf = some k → s.used k = false

/-- The invariant of the assets between two steps. -/
abbrev Owned (s : GmState) : Prop :=
  OwnedExcept s []

/-- Entries that do not exist yet are blank. -/
def Fresh (s : GmState) : Prop :=
  ∀ e, s.nextEntry ≤ e → (s.banner e).state = .none

section Requests

variable {s : GmState}

/-- A request in flight is the one its banner waits for. -/
theorem OwnedExcept.request
    {exempt : List Nat} (h : OwnedExcept s exempt) {i : Nat} {p : ArqPost}
    (hp : s.arq[i]? = some p) :
    s.inFlight p.entry = [p.callback] := by
  have herase : { s with arq := s.arq.eraseIdx i }.arq = s.arq.eraseIdx i := rfl
  obtain ⟨l, r, hl, _⟩ := inFlight_erase (e := p.entry) hp herase
  rw [if_pos rfl] at hl
  have hreq := h.requests p.entry
  have hlen : (s.inFlight p.entry).length ≤ 1 := by
    rw [hreq]
    cases (s.banner p.entry).state <;> simp [GmLoadState.requests]
  rw [hl] at hlen ⊢
  simp only [List.length_append, List.length_singleton] at hlen
  have hl0 : l = [] := List.length_eq_zero_iff.1 (by omega)
  have hr0 : r = [] := List.length_eq_zero_iff.1 (by omega)
  rw [hl0, hr0]
  rfl

end Requests

section Change

variable {s s' : GmState} {e : Nat} {b : GmBanner}
variable {exempt exempt' : List Nat}

theorem holds_update
    (hbanner : s'.banner = Function.update s.banner e b) :
    (fun e => (s'.banner e).holds) =
      Function.update (fun e => (s.banner e).holds) e b.holds := by
  funext e'
  rw [hbanner]
  by_cases he : e' = e
  · rw [he, Function.update_self, Function.update_self]
  · rw [Function.update_of_ne he, Function.update_of_ne he]

/-- The invariant after a change of one banner. -/
theorem OwnedExcept.change
    (h : OwnedExcept s exempt)
    (hbanner : s'.banner = Function.update s.banner e b)
    (haccounts : Accounts
      (Function.update (fun e => (s.banner e).holds) e b.holds) s'.used)
    (hself : s'.inFlight e = b.state.requests)
    (hothers : ∀ e', e' ≠ e → s'.inFlight e' = s.inFlight e')
    (hbuffered : ¬ b.state.Idle → ∃ k, b.buf = some k)
    (hstale : ∀ k, b.state = .unloaded → b.buf = some k → s'.used k = false)
    (hclean : ∀ e' k, e' ≠ e → e' ∉ exempt' →
      (s.banner e').state = .unloaded → (s.banner e').buf = some k →
      s'.used k = false) :
    OwnedExcept s' exempt' where
  accounts := by
    rw [holds_update hbanner]
    exact haccounts
  requests := by
    intro e'
    rw [hbanner]
    by_cases he : e' = e
    · rw [he, Function.update_self, hself]
    · rw [Function.update_of_ne he, hothers e' he, h.requests]
  buffered := by
    intro e'
    rw [hbanner]
    by_cases he : e' = e
    · rw [he, Function.update_self]
      exact hbuffered
    · rw [Function.update_of_ne he]
      exact h.buffered e'
  stale := by
    intro e' k hnot
    rw [hbanner]
    by_cases he : e' = e
    · rw [he, Function.update_self]
      exact hstale k
    · rw [Function.update_of_ne he]
      exact hclean e' k he hnot

/-- A banner without a buffer takes a free one and posts its request. -/
theorem OwnedExcept.acquire
    {k : PoolSlot} {p : ArqPost}
    (h : OwnedExcept s exempt)
    (hexempt : ∀ e', e' ≠ e → e' ∉ exempt' → e' ∉ exempt)
    (hbanner : s'.banner = Function.update s.banner e b)
    (hused : s'.used = Function.update s.used k true)
    (harq : s'.arq = s.arq ++ [p])
    (hidle : (s.banner e).state.Idle) (hfree : s.used k = false)
    (hbuf : b.buf = some k) (hbusy : b.state.requests = [p.callback])
    (hentry : p.entry = e)
    (hclean : ∀ e', e' ≠ e → e' ∉ exempt' →
      (s.banner e').state = .unloaded → (s.banner e').buf ≠ some k) :
    OwnedExcept s' exempt' := by
  have hnotIdle : ¬ b.state.Idle := by
    intro hi
    rcases hi with hi | hi <;> rw [hi] at hbusy <;> cases hbusy
  have hholds : b.holds = some k := by
    rw [GmBanner.holds, if_neg hnotIdle, hbuf]
  have hnone : s.inFlight e = [] := by
    rw [h.requests]
    rcases hidle with hi | hi <;> rw [hi] <;> rfl
  refine h.change hbanner ?_ ?_ (fun e' he => ?_) (fun _ => ⟨k, hbuf⟩)
    (fun k' hst => ?_) (fun e' k' he hnot hst hb => ?_)
  · rw [hholds, hused]
    exact h.accounts.acquire (if_pos hidle) hfree
  · rw [inFlight_append harq, hnone, if_pos hentry, hbusy]
    rfl
  · rw [inFlight_append harq, if_neg (by rw [hentry]; exact Ne.symm he),
      List.append_nil]
  · exact absurd (Or.inr hst) hnotIdle
  · have hne : k' ≠ k := by
      rintro rfl
      exact hclean e' he hnot hst hb
    rw [hused, Function.update_of_ne hne]
    exact h.stale e' k' (hexempt e' he hnot) hst hb

/-- A banner that is not in transfer gives its buffer back. -/
theorem Owned.release
    (h : Owned s)
    (hbanner : s'.banner = Function.update s.banner e b)
    (hused : s'.used = usedWithout s.used (s.banner e).buf)
    (hself : s'.inFlight e = [])
    (hothers : ∀ e', e' ≠ e → s'.inFlight e' = s.inFlight e')
    (hst : b.state = .unloaded)
    (hbuf : b.buf = none ∨ b.buf = (s.banner e).buf)
    (hfree : (s.banner e).state.Idle → (s.banner e).state = .unloaded) :
    Owned s' := by
  have hholds : b.holds = none := if_pos (Or.inr hst)
  -- a mark that is cleared here belongs to this banner or was clear already
  have hclear : ∀ k, s.used k = false → s'.used k = false := by
    intro k hk
    rw [hused]
    cases (s.banner e).buf with
    | none => exact hk
    | some k' =>
        by_cases hkk : k = k'
        · rw [hkk, usedWithout_some, Function.update_self]
        · rw [usedWithout_some, Function.update_of_ne hkk, hk]
  have hmine : ∀ k, (s.banner e).buf = some k → s'.used k = false := by
    intro k hk
    rw [hused, hk]
    exact Function.update_self ..
  refine h.change hbanner ?_ ?_ hothers ?_ (fun k _ hb => ?_)
    (fun e' k _ hnot hst' hb => hclear k (h.stale e' k hnot hst' hb))
  · rw [hholds, hused]
    by_cases hidle : (s.banner e).state.Idle
    · have hnone : (s.banner e).holds = none := if_pos hidle
      have hsame : usedWithout s.used (s.banner e).buf = s.used := by
        cases hb : (s.banner e).buf with
        | none => rfl
        | some k =>
            have hk := h.stale e k (by simp) (hfree hidle) hb
            rw [usedWithout_some, ← hk, Function.update_eq_self]
      rw [hsame, ← hnone, Function.update_eq_self]
      exact h.accounts
    · obtain ⟨k, hk⟩ := h.buffered e hidle
      rw [hk]
      refine h.accounts.release ?_
      show (s.banner e).holds = some k
      rw [GmBanner.holds, if_neg hidle, hk]
  · rw [hself, hst]
    rfl
  · intro hno
    exact absurd (Or.inr hst) hno
  · rcases hbuf with hb' | hb'
    · rw [hb'] at hb
      cases hb
    · rw [hb'] at hb
      exact hmine k hb

end Change

section Functions

variable {s : GmState}

/-- A change of a banner that leaves its buffer and its transfer alone. -/
theorem Owned.touch
    {s' : GmState} {e : Nat} {b : GmBanner}
    (h : Owned s) (heff : Effect s s' e b s.used s.arq)
    (hstate : b.state = (s.banner e).state) (hbuf : b.buf = (s.banner e).buf) :
    Owned s' := by
  have hholds : b.holds = (s.banner e).holds := by
    rw [GmBanner.holds, GmBanner.holds, hstate, hbuf]
  refine h.change heff.banner ?_ ?_ (fun e' _ => inFlight_congr heff.arq)
    ?_ (fun k hst hb => ?_) (fun e' k _ _ hst hb => ?_)
  · rw [hholds, heff.used, Function.update_eq_self]
    exact h.accounts
  · rw [inFlight_congr heff.arq, hstate]
    exact h.requests e
  · rw [hstate, hbuf]
    exact h.buffered e
  · rw [heff.used]
    exact h.stale e k (by simp) (hstate ▸ hst) (hbuf ▸ hb)
  · rw [heff.used]
    exact h.stale e' k (by simp) hst hb

/-- `gm_banner_free` keeps the invariant. -/
theorem Owned.free
    (h : Owned s) (e : Nat) : Owned (gmBannerFree s e) := by
  have hgive : (s.banner e).state = .unloaded ∨ (s.banner e).state = .loaded →
      Owned (gmBannerFree s e) := by
    intro hst
    have heff := gmBannerFree_effect hst
    refine h.release heff.banner heff.used ?_
      (fun e' _ => inFlight_congr heff.arq) rfl (Or.inl rfl) ?_
    · rw [inFlight_congr heff.arq, h.requests]
      rcases hst with hst | hst <;> rw [hst] <;> rfl
    · rintro (hno | hidle)
      · rcases hst with hst | hst <;> rw [hst] at hno <;> cases hno
      · exact hidle
  cases hst : (s.banner e).state with
  | none =>
      rw [gmBannerFree_idle (Or.inl hst)]
      exact h
  | unloading =>
      rw [gmBannerFree_idle (Or.inr hst)]
      exact h
  | setup => exact h.touch (gmBannerFree_deferred (Or.inr hst)) rfl rfl
  | loading => exact h.touch (gmBannerFree_deferred (Or.inl hst)) rfl rfl
  | unloaded => exact hgive (Or.inl hst)
  | loaded => exact hgive (Or.inr hst)

/-- The requests left after the completion of the only request of an entry. -/
theorem Owned.complete_requests
    {s' : GmState} {i : Nat} {p : ArqPost}
    (h : Owned s) (hp : s.arq[i]? = some p) (harq : s'.arq = s.arq.eraseIdx i) :
    s'.inFlight p.entry = [] ∧
      ∀ e, e ≠ p.entry → s'.inFlight e = s.inFlight e := by
  constructor
  · obtain ⟨l, r, hl, hr⟩ := inFlight_erase (e := p.entry) hp harq
    rw [if_pos rfl, h.request hp] at hl
    rw [hr]
    have hlen := congrArg List.length hl
    simp only [List.length_append, List.length_singleton] at hlen
    exact List.length_eq_zero_iff.1 (by rw [List.length_append]; omega)
  · intro e he
    obtain ⟨l, r, hl, hr⟩ := inFlight_erase (e := e) hp harq
    rw [if_neg (Ne.symm he), List.append_nil] at hl
    rw [hl, hr]

/-- A transfer that ends with its buffer in use. -/
theorem Owned.settle
    {s' : GmState} {i : Nat} {p : ArqPost} {b : GmBanner}
    (h : Owned s) (hp : s.arq[i]? = some p)
    (hbanner : s'.banner = Function.update s.banner p.entry b)
    (hused : s'.used = s.used) (harq : s'.arq = s.arq.eraseIdx i)
    (hstate : b.state = .loaded) (hbuf : b.buf = (s.banner p.entry).buf)
    (hbusy : ¬ (s.banner p.entry).state.Idle) :
    Owned s' := by
  obtain ⟨hself, hothers⟩ := h.complete_requests hp harq
  have hnotIdle : ¬ b.state.Idle := by rw [hstate]; decide
  have hholds : b.holds = (s.banner p.entry).holds := by
    rw [GmBanner.holds, GmBanner.holds, if_neg hnotIdle, if_neg hbusy, hbuf]
  refine h.change hbanner ?_ ?_ hothers (fun _ => ?_) (fun k hst => ?_)
    (fun e k _ _ hst hb => ?_)
  · rw [hholds, hused, Function.update_eq_self]
    exact h.accounts
  · rw [hself, hstate]
    rfl
  · rw [hbuf]
    exact h.buffered _ hbusy
  · rw [hstate] at hst
    cases hst
  · rw [hused]
    exact h.stale e k (by simp) hst hb

/-- Completion of a request keeps the invariant. -/
theorem Owned.complete
    (h : Owned s) (i : Nat) : Owned (arqComplete s i) := by
  cases hp : s.arq[i]? with
  | none =>
      rw [arqComplete_none hp]
      exact h
  | some p =>
      have heff := arqComplete_effect hp
      have hreq : (s.banner p.entry).state.requests = [p.callback] := by
        rw [← h.requests, h.request hp]
      have hbusy : ¬ (s.banner p.entry).state.Idle := by
        rintro (hi | hi) <;> rw [hi] at hreq <;> cases hreq
      cases hcb : p.callback with
      | setup =>
          rw [hcb] at heff
          exact h.settle hp heff.banner heff.used heff.arq rfl rfl hbusy
      | load =>
          rw [hcb] at heff
          exact h.settle hp heff.banner heff.used heff.arq rfl rfl hbusy
      | unload =>
          rw [hcb] at heff
          obtain ⟨hself, hothers⟩ := h.complete_requests hp heff.arq
          exact h.release heff.banner heff.used hself hothers rfl (Or.inr rfl)
            (fun hidle => absurd hidle hbusy)

end Functions

/-- The free buffers, in the order in which they are handed out. -/
def GmState.freeSlots (s : GmState) : List PoolSlot :=
  (List.finRange assetBufferCount).filter fun k => !s.used k

/-- The entries of a list that a load takes a buffer for. -/
def unloadedOf (s : GmState) (l : List Nat) : List Nat :=
  l.filter fun e => decide ((s.banner e).state = .unloaded)

/--
Loading these entries finds none in transfer, has a buffer for each, and hands
out no buffer to which another unloaded entry still points.
-/
structure LoadGuard (s : GmState) (l : List Nat) : Prop where
  settled : ∀ e ∈ l, ¬ (s.banner e).state.Busy
  room : (unloadedOf s l).length ≤ s.freeSlots.length
  clean : ∀ k ∈ s.freeSlots.take (unloadedOf s l).length,
    ∀ e, e ∉ unloadedOf s l → (s.banner e).state = .unloaded →
      (s.banner e).buf ≠ some k

theorem freeSlot_eq (s : GmState) : s.freeSlot = s.freeSlots.head? := by
  unfold GmState.freeSlots
  rw [List.head?_filter]
  rfl

/-- Taking the first free buffer leaves the others. -/
theorem freeSlots_take
    {s s' : GmState} {k : PoolSlot} {rest : List PoolSlot}
    (h : s.freeSlots = k :: rest)
    (hused : s'.used = Function.update s.used k true) :
    s'.freeSlots = rest := by
  have hnodup : (k :: rest).Nodup := by
    rw [← h]
    exact (List.nodup_finRange _).filter _
  have hfilter : s'.freeSlots = s.freeSlots.filter fun j => decide (j ≠ k) := by
    unfold GmState.freeSlots
    rw [List.filter_filter, hused]
    refine List.filter_congr fun j _ => ?_
    by_cases hj : j = k
    · simp [hj]
    · simp [hj]
  rw [hfilter, h, List.filter_cons_of_neg (by simp), List.filter_eq_self]
  intro j hj
  have : j ≠ k := by
    rintro rfl
    exact (List.nodup_cons.1 hnodup).1 hj
  simpa using this

/-- Loading the first entry of a list that needs a buffer. -/
theorem OwnedExcept.load_head
    {s : GmState} {e : Nat} {l : List Nat}
    (h : OwnedExcept s (unloadedOf s (e :: l))) (hnodup : (e :: l).Nodup)
    (hguard : LoadGuard s (e :: l))
    (hst : (s.banner e).state = .unloaded) :
    OwnedExcept (gmBannerLoad s e) (unloadedOf (gmBannerLoad s e) l) ∧
      LoadGuard (gmBannerLoad s e) l := by
  have hne := (List.nodup_cons.1 hnodup).1
  have hcons : unloadedOf s (e :: l) = e :: unloadedOf s l :=
    List.filter_cons_of_pos (by simpa using hst)
  obtain ⟨hsettled, hroom, hclean⟩ := hguard
  rw [hcons] at hroom hclean h
  obtain ⟨k, rest, hfree⟩ : ∃ k rest, s.freeSlots = k :: rest := by
    cases hslots : s.freeSlots with
    | nil =>
        rw [hslots] at hroom
        simp at hroom
    | cons k rest => exact ⟨k, rest, rfl⟩
  have hslot : s.freeSlot = some k := by rw [freeSlot_eq, hfree]; rfl
  have heff := gmBannerLoad_effect (e := e) hslot (by simp [hst])
  have hstates : ∀ e', e' ≠ e →
      (gmBannerLoad s e).banner e' = s.banner e' := by
    intro e' he
    rw [heff.banner, Function.update_of_ne he]
  have hrest : unloadedOf (gmBannerLoad s e) l = unloadedOf s l := by
    refine List.filter_congr fun e' he => ?_
    have : e' ≠ e := by
      rintro rfl
      exact hne he
    rw [hstates e' this]
  rw [hfree, List.length_cons] at hroom hclean
  refine ⟨?_, ?_, ?_, ?_⟩
  · rw [hrest]
    refine h.acquire (fun e' he hnot => ?_) heff.banner heff.used heff.arq
      (Or.inr hst) (freeSlot_some hslot) rfl rfl rfl (fun e' he hnot hst' => ?_)
    · rw [List.mem_cons, not_or]
      exact ⟨he, hnot⟩
    · refine hclean k ?_ e' ?_ hst'
      · rw [List.take_succ_cons]
        exact List.mem_cons_self
      · rw [List.mem_cons, not_or]
        exact ⟨he, hnot⟩
  · intro e' he
    have : e' ≠ e := by
      rintro rfl
      exact hne he
    rw [hstates e' this]
    exact hsettled e' (List.mem_cons_of_mem e he)
  · rw [hrest, freeSlots_take hfree heff.used]
    simp only [List.length_cons] at hroom
    omega
  · rw [hrest, freeSlots_take hfree heff.used]
    intro k' hk' e' hnot hst'
    by_cases he : e' = e
    · rw [he, heff.banner, Function.update_self] at hst'
      cases hst'
    · rw [hstates e' he] at hst' ⊢
      refine hclean k' ?_ e' ?_ hst'
      · rw [List.take_succ_cons]
        exact List.mem_cons_of_mem k hk'
      · rw [List.mem_cons, not_or]
        exact ⟨he, hnot⟩

/-- Loading a list of entries one after the other. -/
theorem OwnedExcept.load_all
    {l : List Nat} {s : GmState}
    (h : OwnedExcept s (unloadedOf s l)) (hnodup : l.Nodup)
    (hguard : LoadGuard s l) :
    Owned (l.foldl gmBannerLoad s) := by
  induction l generalizing s with
  | nil => exact h
  | cons e l ih =>
      rw [List.foldl_cons]
      have hl := (List.nodup_cons.1 hnodup).2
      by_cases hst : (s.banner e).state = .unloaded
      · obtain ⟨h', hguard'⟩ := h.load_head hnodup hguard hst
        exact ih h' hl hguard'
      · have hskip : unloadedOf s (e :: l) = unloadedOf s l :=
          List.filter_cons_of_neg (by simpa using hst)
        obtain ⟨hsettled, hroom, hclean⟩ := hguard
        rw [hskip] at h hroom hclean
        have hidle : (s.banner e).state = .none ∨ (s.banner e).state = .loaded := by
          have hbusy := hsettled e List.mem_cons_self
          unfold GmLoadState.Busy at hbusy
          cases hs : (s.banner e).state <;> simp_all
        rw [gmBannerLoad_idle hidle]
        exact ih h hl ⟨fun e' he => hsettled e' (List.mem_cons_of_mem e he),
          hroom, hclean⟩

/-- A line load whose guard holds. -/
theorem Owned.lineLoad
    {s : GmState} {lineNum : Nat}
    (h : Owned s) (hguard : LoadGuard s (lineGames s lineNum)) :
    Owned (gmLineLoad s lineNum) := by
  rw [gmLineLoad_eq]
  refine OwnedExcept.load_all ?_ (lineGames_nodup s lineNum) hguard
  exact ⟨h.accounts, h.requests, h.buffered,
    fun e k _ => h.stale e k (by simp)⟩

/-- A line free. -/
theorem Owned.lineFree
    {s : GmState} (h : Owned s) (lineNum : Nat) :
    Owned (gmLineFree s lineNum) := by
  rw [gmLineFree_eq]
  generalize lineGames s lineNum = l
  induction l generalizing s with
  | nil => exact h
  | cons e l ih => exact ih (h.free e)

section Enumerate

variable {s s' : GmState} {b : GmBanner}

/-- A new entry without a banner. -/
theorem Owned.newBlank
    (h : Owned s) (hfresh : Fresh s)
    (hnew : NewEntry s s' .zero s.used s.arq) :
    Owned s' := by
  have hnone : (s.banner s.nextEntry).state = .none := hfresh _ le_rfl
  have hholds : GmBanner.zero.holds = (s.banner s.nextEntry).holds := by
    rw [show (s.banner s.nextEntry).holds = none from if_pos (Or.inl hnone)]
    rfl
  refine h.change hnew.banner ?_ ?_ (fun e _ => inFlight_congr hnew.arq)
    (fun hno => absurd (Or.inl rfl) hno) (fun k hst => by cases hst)
    (fun e k _ _ hst hb => ?_)
  · rw [hholds, hnew.used, Function.update_eq_self]
    exact h.accounts
  · rw [inFlight_congr hnew.arq, h.requests, hnone]
    rfl
  · rw [hnew.used]
    exact h.stale e k (by simp) hst hb

/-- A new entry leaves blank the entries after it. -/
theorem Fresh.next
    {used : PoolSlot → Bool} {posts : List ArqPost}
    (h : Fresh s) (hnew : NewEntry s s' b used posts) :
    Fresh s' := by
  intro e he
  have hnext : s'.nextEntry = s.nextEntry + 1 := by
    unfold GmState.nextEntry
    rw [hnew.released, hnew.count]
    omega
  rw [hnew.banner, Function.update_of_ne (by omega)]
  exact h e (by omega)

/-- A change of a listed entry leaves the others blank. -/
theorem Fresh.effect
    {e : Nat} {used : PoolSlot → Bool} {posts : List ArqPost}
    (h : Fresh s) (heff : Effect s s' e b used posts) (he : e < s.nextEntry) :
    Fresh s' := by
  intro e' he'
  have hnext : s'.nextEntry = s.nextEntry := by
    unfold GmState.nextEntry
    rw [heff.released, heff.count]
  rw [hnext] at he'
  rw [heff.banner, Function.update_of_ne (by omega)]
  exact h e' he'

end Enumerate

/--
The condition on a step: a placement finds a free buffer to which no unloaded
entry points, and a line load meets `LoadGuard`.
-/
def AssetGuard (s : GmState) : AssetEvent → Prop
  | .enumerate _ f =>
      BannerWanted f →
        ∃ k, s.freeSlot = some k ∧
          ∀ e, (s.banner e).state = .unloaded → (s.banner e).buf ≠ some k
  | .lineLoad lineNum => LoadGuard s (lineGames s lineNum)
  | .lineFree _ => True
  | .complete _ => True

/-- A pass of the enumeration whose guard holds. -/
theorem Owned.enumerate
    {s : GmState} (h : Owned s) (hfresh : Fresh s)
    {aramOffset : Nat} {f : ListedFile}
    (hguard : AssetGuard s (.enumerate aramOffset f)) :
    Owned (gmCheckFile ⟨s, aramOffset, []⟩ f).gm ∧
      Fresh (gmCheckFile ⟨s, aramOffset, []⟩ f).gm := by
  rcases gmCheckFile_cases ⟨s, aramOffset, []⟩ f with hsame | hnew | ⟨hwant, heq⟩
  · rw [hsame]
    exact ⟨h, hfresh⟩
  · exact ⟨h.newBlank hfresh hnew, hfresh.next hnew⟩
  · obtain ⟨k, hslot, hclean⟩ := hguard hwant
    have hnew := gmCheckGame_effect (c := ⟨s, aramOffset, []⟩) (f := f)
      hwant.2.2 hslot
    rw [heq]
    refine ⟨?_, hfresh.next hnew⟩
    refine h.acquire (fun _ _ hno => hno) hnew.banner hnew.used hnew.arq
      (Or.inl (hfresh _ le_rfl)) (freeSlot_some hslot) rfl ?_ rfl
      (fun e _ _ hst => hclean e hst)
    cases forceUnload s f.topLineNum <;> rfl

/-- Loading and freeing lines leaves unlisted entries blank. -/
theorem Fresh.foldl
    {f : GmState → Nat → GmState}
    (hf : ∀ s e, Fresh s → e < s.nextEntry →
      Fresh (f s e) ∧ (f s e).nextEntry = s.nextEntry)
    {l : List Nat} {s : GmState} (h : Fresh s) (hl : ∀ e ∈ l, e < s.nextEntry) :
    Fresh (l.foldl f s) := by
  induction l generalizing s with
  | nil => exact h
  | cons e l ih =>
      obtain ⟨h', hnext⟩ := hf s e h (hl e List.mem_cons_self)
      exact ih h' fun e' he' => by
        rw [hnext]
        exact hl e' (List.mem_cons_of_mem e he')

theorem Fresh.load
    {s : GmState} (h : Fresh s) {e : Nat} (he : e < s.nextEntry) :
    Fresh (gmBannerLoad s e) := by
  by_cases hst : (s.banner e).state = .none ∨ (s.banner e).state = .loaded
  · rw [gmBannerLoad_idle hst]
    exact h
  · cases hslot : s.freeSlot with
    | none => exact h.effect (gmBannerLoad_exhausted hslot hst) he
    | some k => exact h.effect (gmBannerLoad_effect hslot hst) he

theorem Fresh.free
    {s : GmState} (h : Fresh s) {e : Nat} (he : e < s.nextEntry) :
    Fresh (gmBannerFree s e) := by
  cases hst : (s.banner e).state with
  | none =>
      rw [gmBannerFree_idle (Or.inl hst)]
      exact h
  | unloading =>
      rw [gmBannerFree_idle (Or.inr hst)]
      exact h
  | setup => exact h.effect (gmBannerFree_deferred (Or.inr hst)) he
  | loading => exact h.effect (gmBannerFree_deferred (Or.inl hst)) he
  | unloaded => exact h.effect (gmBannerFree_effect (Or.inl hst)) he
  | loaded => exact h.effect (gmBannerFree_effect (Or.inr hst)) he

/-- Requests are those of listed entries. -/
theorem Owned.request_listed
    {s : GmState} (h : Owned s) (hfresh : Fresh s)
    {i : Nat} {p : ArqPost} (hp : s.arq[i]? = some p) :
    p.entry < s.nextEntry := by
  by_contra hno
  have hreq := h.requests p.entry
  rw [h.request hp, hfresh _ (by omega)] at hreq
  cases hreq

/-- Every step whose guard holds keeps the invariant. -/
theorem AssetStep.owned
    {s s' : GmState} {a : AssetEvent}
    (h : Owned s ∧ Fresh s) (hguard : AssetGuard s a) (hs : AssetStep s a s') :
    Owned s' ∧ Fresh s' := by
  obtain ⟨howned, hfresh⟩ := h
  rw [AssetStep] at hs
  rw [hs]
  cases a with
  | enumerate aramOffset f => exact howned.enumerate hfresh hguard
  | lineLoad lineNum =>
      refine ⟨howned.lineLoad hguard, ?_⟩
      show Fresh (gmLineLoad s lineNum)
      rw [gmLineLoad_eq]
      exact hfresh.foldl
        (fun s e h he => ⟨h.load he, (gmBannerLoad_shape s e).nextEntry⟩)
        (fun e he => (mem_lineGames he).2.2)
  | lineFree lineNum =>
      refine ⟨howned.lineFree lineNum, ?_⟩
      show Fresh (gmLineFree s lineNum)
      rw [gmLineFree_eq]
      exact hfresh.foldl
        (fun s e h he => ⟨h.free he, (gmBannerFree_shape s e).nextEntry⟩)
        (fun e he => (mem_lineGames he).2.2)
  | complete i =>
      refine ⟨howned.complete i, ?_⟩
      show Fresh (arqComplete s i)
      cases hp : s.arq[i]? with
      | none =>
          rw [arqComplete_none hp]
          exact hfresh
      | some p =>
          exact hfresh.effect (arqComplete_effect hp)
            (howned.request_listed hfresh hp)

theorem EmptyList.owned
    {s : GmState} (h : EmptyList s) : Owned s ∧ Fresh s := by
  refine ⟨⟨⟨fun i j k hi => ?_, fun k => ?_⟩, fun e => ?_, fun e hno => ?_,
    fun e k _ hst => ?_⟩, fun e _ => ?_⟩
  · simp only [h.entry] at hi
    cases hi
  · simp only [h.pool, h.entry]
    exact ⟨fun hno => absurd hno (by simp), fun ⟨_, hno⟩ => by cases hno⟩
  · simp [GmState.inFlight, h.arq, h.entry, GmBanner.zero, GmLoadState.requests]
  · rw [h.entry] at hno
    exact absurd (Or.inl rfl) hno
  · rw [h.entry] at hst
    cases hst
  · rw [h.entry]
    rfl

/-- Who owns what in a state of the game list. -/
structure Ownership (s : GmState) : Prop where
  busy : ∀ e, (s.banner e).state.Busy →
    (s.inFlight e).length = 1 ∧
      ∃ k, (s.banner e).buf = some k ∧ s.used k = true
  loaded : ∀ e, (s.banner e).state = .loaded →
    s.inFlight e = [] ∧ ∃ k, (s.banner e).buf = some k ∧ s.used k = true
  /-- A free or a load of an idle entry clears no mark of the pool. -/
  idle : ∀ e, (s.banner e).state.Idle →
    s.inFlight e = [] ∧
      ∀ k, s.used k = true →
        (gmBannerFree s e).used k = true ∧ (gmBannerLoad s e).used k = true
  exclusive : ∀ e e' k, (s.banner e).holds = some k →
    (s.banner e').holds = some k → e = e'
  held : ∀ k, s.used k = true → ∃ e, (s.banner e).holds = some k
  /-- No request is queued twice. -/
  single : ∀ e, (s.inFlight e).length ≤ 1

/-- A load never clears a mark. -/
theorem gmBannerLoad_marks
    {s : GmState} {k : PoolSlot} (e : Nat) (hk : s.used k = true) :
    (gmBannerLoad s e).used k = true := by
  by_cases hst : (s.banner e).state = .none ∨ (s.banner e).state = .loaded
  · rw [gmBannerLoad_idle hst]
    exact hk
  · cases hslot : s.freeSlot with
    | none =>
        rw [(gmBannerLoad_exhausted hslot hst).used]
        exact hk
    | some k' =>
        rw [(gmBannerLoad_effect hslot hst).used]
        by_cases hkk : k = k'
        · rw [hkk, Function.update_self]
        · rw [Function.update_of_ne hkk, hk]

theorem Owned.ownership
    {s : GmState} (h : Owned s) : Ownership s := by
  have hbuffer : ∀ e, ¬ (s.banner e).state.Idle →
      ∃ k, (s.banner e).buf = some k ∧ s.used k = true := by
    intro e hno
    obtain ⟨k, hk⟩ := h.buffered e hno
    refine ⟨k, hk, (h.accounts.counted k).2 ⟨e, ?_⟩⟩
    show (s.banner e).holds = some k
    rw [GmBanner.holds, if_neg hno, hk]
  refine
    { busy := fun e hb => ⟨?_, hbuffer e ?_⟩
      loaded := fun e hl => ⟨?_, hbuffer e ?_⟩
      idle := fun e hi => ⟨?_, fun k hk => ⟨?_, gmBannerLoad_marks e hk⟩⟩
      exclusive := h.accounts.exclusive
      held := fun k hk => (h.accounts.counted k).1 hk
      single := fun e => ?_ }
  · rw [h.requests]
    rcases hb with hb | hb | hb <;> rw [hb] <;> rfl
  · rcases hb with hb | hb | hb <;> rw [hb] <;> decide
  · rw [h.requests, hl]
    rfl
  · rw [hl]
    decide
  · rw [h.requests]
    rcases hi with hi | hi <;> rw [hi] <;> rfl
  · rcases hi with hi | hi
    · rw [gmBannerFree_idle (Or.inl hi)]
      exact hk
    · rw [(gmBannerFree_effect (Or.inl hi)).used]
      cases hb : (s.banner e).buf with
      | none => exact hk
      | some k' =>
          have hk' := h.stale e k' (by simp) hi hb
          have hne : k ≠ k' := by
            rintro rfl
            rw [hk] at hk'
            cases hk'
          rw [usedWithout_some, Function.update_of_ne hne, hk]
  · rw [h.requests]
    cases (s.banner e).state <;> simp [GmLoadState.requests]

/-- In every run whose steps all meet `AssetGuard`, assets are owned as they should be. -/
theorem asset_ownership
    {s : GmState} (h : Reachable EmptyList (Guarded AssetStep AssetGuard) s) :
    Ownership s :=
  (h.invariant (fun _ => EmptyList.owned)
    (fun _ _ hinv ⟨_, hguard, hs⟩ => hs.owned hinv hguard)).1.ownership

/-- A game with a banner, found while the list is at its top. -/
def sampleGame : ListedFile where
  path := ⟨[0x2F, 0x61], .game⟩
  outcome :=
    { info := ⟨true, [], 0, 0, 0, 0x2440, 0, 0, 0, 0⟩
      gameFd := 0
      opened := none
      read := ⟨true, sizeofBnr, fun _ => 0⟩ }
  stop := false
  topLineNum := 0

theorem blank_empty : EmptyList .blank :=
  ⟨rfl, fun _ => rfl, fun _ => rfl, rfl⟩

/-- One game, its banner still on its way to auxiliary RAM. -/
def oneInSetup : GmState :=
  (AssetEvent.enumerate aramStart sampleGame).apply .blank

/--
The line of a game is loaded before the transfer of its setup has completed.
The request is posted a second time, for a second buffer.
-/
theorem line_load_reposts :
    Reachable EmptyList (anyStep AssetStep) (gmLineLoad oneInSetup 0) ∧
      (gmLineLoad oneInSetup 0).inFlight 0 = [.setup, .load] ∧
      ¬ Ownership (gmLineLoad oneInSetup 0) := by
  have htwice : (gmLineLoad oneInSetup 0).inFlight 0 = [.setup, .load] := by
    decide +kernel
  refine ⟨?_, htwice, fun h => ?_⟩
  · exact ((Reachable.start blank_empty).step
      ⟨.enumerate aramStart sampleGame, rfl⟩).step ⟨.lineLoad 0, rfl⟩
  · have := h.single 0
    rw [htwice] at this
    exact absurd this (by decide)

/-- The same game, once its setup has completed and its line has been freed. -/
def oneUnloaded : GmState :=
  gmLineFree (arqComplete oneInSetup 0) 0

theorem oneUnloaded_others {e : Nat} (he : e ≠ 0) : (oneUnloaded.banner e).state = .none := by
  have hline : lineGames (arqComplete oneInSetup 0) 0 = [0] := by
    decide +kernel
  have hloaded : ((arqComplete oneInSetup 0).banner 0).state = .loaded := by
    decide +kernel
  have hpost : oneInSetup.arq[0]? = some ⟨0, .setup, some 0, aramStart⟩ := by
    decide +kernel
  have hfirst : GmState.blank.nextEntry = 0 := rfl
  have hnew : NewEntry .blank oneInSetup _ _ _ :=
    gmCheckGame_effect (c := ⟨.blank, aramStart, []⟩) (f := sampleGame) (k := 0) (by decide)
      (by decide +kernel)
  rw [oneUnloaded, gmLineFree_eq, hline, List.foldl_cons, List.foldl_nil,
    (gmBannerFree_effect (Or.inr hloaded)).banner, Function.update_of_ne he,
    (arqComplete_effect hpost).banner, Function.update_of_ne he, hnew.banner, hfirst,
    Function.update_of_ne he]
  rfl

/-- Its line is loaded then, and the game owns a buffer while the request is queued. -/
theorem asset_ownership_line_load :
    (oneUnloaded.banner 0).state = .unloaded ∧
      ((gmLineLoad oneUnloaded 0).banner 0).state = .loading ∧
      (gmLineLoad oneUnloaded 0).inFlight 0 = [.load] ∧ Ownership (gmLineLoad oneUnloaded 0) := by
  have hline : lineGames oneUnloaded 0 = [0] := by
    decide +kernel
  have hst : (oneUnloaded.banner 0).state = .unloaded := by
    decide +kernel
  have hguard : LoadGuard oneUnloaded (lineGames oneUnloaded 0) := by
    rw [hline]
    refine ⟨fun e he => ?_, by decide +kernel, fun k _ e he hunloaded => ?_⟩
    · rw [List.mem_singleton.1 he, hst]
      decide
    · by_cases hzero : e = 0
      · exact absurd (by simp [hzero, unloadedOf, hst]) he
      · rw [oneUnloaded_others hzero] at hunloaded
        cases hunloaded
  refine ⟨hst, by decide +kernel, by decide +kernel, ?_⟩
  exact asset_ownership (((((Reachable.start blank_empty).step
    ⟨.enumerate aramStart sampleGame, fun _ => ⟨0, by decide +kernel, fun e he => by cases he⟩,
      rfl⟩).step ⟨.complete 0, trivial, rfl⟩).step ⟨.lineFree 0, trivial, rfl⟩).step
        ⟨.lineLoad 0, hguard, rfl⟩)

end Games
end Cubiboot
