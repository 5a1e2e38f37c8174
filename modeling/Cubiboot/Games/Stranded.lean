import Cubiboot.Games.Discard
import Mathlib.Data.Finset.Sum

/-!
# A list over a pool that is partly taken

Earlier directories can have left buffers taken that nobody gives back any more.
`Kept s stranded` says how a list shares the pool with them: a buffer is held by
one entry of the list, or is stranded, or is free.

Unlike in `Ownership`, an unloaded entry may point to a buffer that belongs to
another, and an entry may have found the pool exhausted.  It stays LOADING, with
no buffer and no request, until its line is loaded.

Results: `Kept.change`, the change of one banner; `Kept.load` with `Kept.exists_free`, a
load where a buffer is left; `Kept.free` and `Kept.complete`; and `Kept.request`, the
request a banner waits for.
-/

namespace Cubiboot
namespace Games

open SlotPool Runs

/-- What is held: by a listed entry its buffer, and a stranded buffer by itself. -/
def clientHolds (s : GmState) (stranded : Finset PoolSlot) : Nat ⊕ PoolSlot → Option PoolSlot
  | .inl e => if s.gmReleased ≤ e then (s.banner e).holds else none
  | .inr k => if k ∈ stranded then some k else none

/-- The requests that a banner waits for. -/
def GmBanner.waitsFor (b : GmBanner) : List ArqCallback :=
  match b.buf with
  | none => []
  | some _ => b.state.requests

/-- The state of a banner that waits for a request. -/
def ArqCallback.waiting : ArqCallback → GmLoadState
  | .setup => .setup
  | .unload => .unloading
  | .load => .loading

theorem mem_requests {st : GmLoadState} {c : ArqCallback} :
    c ∈ st.requests ↔ st = c.waiting := by
  cases st <;> cases c <;> simp [GmLoadState.requests, ArqCallback.waiting]

theorem requests_waiting (c : ArqCallback) : c.waiting.requests = [c] := by
  cases c <;> rfl

theorem waiting_not_idle (c : ArqCallback) : ¬ c.waiting.Idle := by
  cases c <;> decide

theorem GmBanner.holds_idle {b : GmBanner} (h : b.state.Idle) : b.holds = none :=
  if_pos h

theorem GmBanner.holds_not_idle {b : GmBanner} (h : ¬ b.state.Idle) : b.holds = b.buf :=
  if_neg h

/-- The list, its requests in flight, and the pool. -/
structure Kept (s : GmState) (stranded : Finset PoolSlot) : Prop where
  accounts : Accounts (clientHolds s stranded) s.used
  requests : ∀ e, s.gmReleased ≤ e → s.inFlight e = (s.banner e).waitsFor
  listed : ∀ p ∈ s.arq, s.gmReleased ≤ p.entry
  fresh : Fresh s
  buffered : ∀ e, s.gmReleased ≤ e → (s.banner e).buf = none →
    (s.banner e).state = .none ∨ (s.banner e).state = .unloaded ∨
      (s.banner e).state = .loading
  games : ∀ e, s.gmReleased ≤ e → (s.banner e).state ≠ .none →
    (s.entry e).type = .game

section Change

variable {s s' : GmState} {stranded : Finset PoolSlot} {e : Nat} {b : GmBanner}

theorem clientHolds_update
    (hreleased : s'.gmReleased = s.gmReleased) (he : s.gmReleased ≤ e)
    (hbanner : s'.banner = Function.update s.banner e b) :
    clientHolds s' stranded =
      Function.update (clientHolds s stranded) (.inl e) b.holds := by
  funext c
  cases c with
  | inr k =>
      rw [Function.update_of_ne (by simp)]
      rfl
  | inl e' =>
      by_cases hee : e' = e
      · rw [hee, Function.update_self, clientHolds, hreleased, if_pos he, hbanner,
          Function.update_self]
      · rw [Function.update_of_ne (by simpa using hee), clientHolds, clientHolds,
          hreleased, hbanner, Function.update_of_ne hee]

/-- A change of the banner of one entry. -/
theorem Kept.change
    (h : Kept s stranded) (he : s.gmReleased ≤ e)
    (hreleased : s'.gmReleased = s.gmReleased)
    (hbanner : s'.banner = Function.update s.banner e b)
    (haccounts : Accounts
      (Function.update (clientHolds s stranded) (.inl e) b.holds) s'.used)
    (hself : s'.inFlight e = b.waitsFor)
    (hothers : ∀ e', e' ≠ e → s'.inFlight e' = s.inFlight e')
    (hlisted : ∀ p ∈ s'.arq, p ∈ s.arq ∨ p.entry = e)
    (hfresh : Fresh s')
    (hbuffered : b.buf = none →
      b.state = .none ∨ b.state = .unloaded ∨ b.state = .loading)
    (htype : ∀ e', e' ≠ e → (s'.entry e').type = (s.entry e').type)
    (hgame : b.state ≠ .none → (s'.entry e).type = .game) :
    Kept s' stranded where
  accounts := by
    rw [clientHolds_update hreleased he hbanner]
    exact haccounts
  requests := by
    intro e' he'
    rw [hreleased] at he'
    rw [hbanner]
    by_cases hee : e' = e
    · rw [hee, Function.update_self, hself]
    · rw [Function.update_of_ne hee, hothers e' hee, h.requests e' he']
  listed := by
    intro p hp
    rw [hreleased]
    rcases hlisted p hp with hp | hp
    · exact h.listed p hp
    · rw [hp]
      exact he
  fresh := hfresh
  buffered := by
    intro e' he'
    rw [hreleased] at he'
    rw [hbanner]
    by_cases hee : e' = e
    · rw [hee, Function.update_self]
      exact hbuffered
    · rw [Function.update_of_ne hee]
      exact h.buffered e' he'
  games := by
    intro e' he'
    rw [hreleased] at he'
    rw [hbanner]
    by_cases hee : e' = e
    · rw [hee, Function.update_self]
      exact hgame
    · rw [Function.update_of_ne hee, htype e' hee]
      exact h.games e' he'

/-- A banner without a buffer takes a free one and posts its request. -/
theorem Kept.acquire
    {k : PoolSlot} {p : ArqPost}
    (h : Kept s stranded) (he : s.gmReleased ≤ e)
    (hreleased : s'.gmReleased = s.gmReleased)
    (hbanner : s'.banner = Function.update s.banner e b)
    (hused : s'.used = Function.update s.used k true)
    (harq : s'.arq = s.arq ++ [p]) (hentry : p.entry = e)
    (hholds : (s.banner e).holds = none) (hwaits : (s.banner e).waitsFor = [])
    (hfree : s.used k = false)
    (hbuf : b.buf = some k) (hbusy : b.state.requests = [p.callback])
    (hfresh : Fresh s')
    (htype : ∀ e', e' ≠ e → (s'.entry e').type = (s.entry e').type)
    (hgame : (s'.entry e).type = .game) :
    Kept s' stranded := by
  have hidle : ¬ b.state.Idle := by
    rintro (hi | hi) <;> rw [hi] at hbusy <;> cases hbusy
  have hclient : clientHolds s stranded (.inl e) = none := by
    rw [clientHolds, if_pos he, hholds]
  refine h.change he hreleased hbanner ?_ ?_ (fun e' hee => ?_) (fun q hq => ?_) hfresh
    (fun hno => ?_) htype fun _ => hgame
  · rw [GmBanner.holds, if_neg hidle, hbuf, hused]
    exact h.accounts.acquire hclient hfree
  · rw [inFlight_append harq, h.requests e he, hwaits, if_pos hentry]
    rw [GmBanner.waitsFor, hbuf, hbusy]
    rfl
  · rw [inFlight_append harq, if_neg (by rw [hentry]; exact Ne.symm hee), List.append_nil]
  · rw [harq, List.mem_append, List.mem_singleton] at hq
    rcases hq with hq | hq
    · exact Or.inl hq
    · rw [hq]
      exact Or.inr hentry
  · rw [hbuf] at hno
    cases hno

/-- A banner that holds nothing changes to one that holds nothing. -/
theorem Kept.idle
    (h : Kept s stranded) (he : s.gmReleased ≤ e)
    (hreleased : s'.gmReleased = s.gmReleased)
    (hbanner : s'.banner = Function.update s.banner e b)
    (hused : s'.used = s.used) (harq : s'.arq = s.arq)
    (hholds : (s.banner e).holds = none) (hholds' : b.holds = none)
    (hwaits : b.waitsFor = (s.banner e).waitsFor) (hfresh : Fresh s')
    (hbuffered : b.buf = none →
      b.state = .none ∨ b.state = .unloaded ∨ b.state = .loading)
    (htype : ∀ e', e' ≠ e → (s'.entry e').type = (s.entry e').type)
    (hgame : b.state ≠ .none → (s'.entry e).type = .game) :
    Kept s' stranded := by
  have hclient : clientHolds s stranded (.inl e) = b.holds := by
    rw [clientHolds, if_pos he, hholds, hholds']
  refine h.change he hreleased hbanner ?_ ?_ (fun _ _ => inFlight_congr harq)
    (fun p hp => Or.inl (harq ▸ hp)) hfresh hbuffered htype hgame
  · rw [← hclient, Function.update_eq_self, hused]
    exact h.accounts
  · rw [inFlight_congr harq, h.requests e he, hwaits]

/-- A banner gives back the buffer that it holds. -/
theorem Kept.release
    {k : PoolSlot}
    (h : Kept s stranded) (he : s.gmReleased ≤ e)
    (hreleased : s'.gmReleased = s.gmReleased)
    (hbanner : s'.banner = Function.update s.banner e b)
    (hused : s'.used = Function.update s.used k false)
    (hholds : (s.banner e).holds = some k) (hstate : b.state = .unloaded)
    (hself : s'.inFlight e = [])
    (hothers : ∀ e', e' ≠ e → s'.inFlight e' = s.inFlight e')
    (hlisted : ∀ p ∈ s'.arq, p ∈ s.arq) (hfresh : Fresh s')
    (htype : ∀ e', (s'.entry e').type = (s.entry e').type) :
    Kept s' stranded := by
  have hclient : clientHolds s stranded (.inl e) = some k := by
    rw [clientHolds, if_pos he, hholds]
  have hnone : b.holds = none := if_pos (Or.inr hstate)
  have hwaits : b.waitsFor = [] := by
    rw [GmBanner.waitsFor, hstate]
    cases b.buf <;> rfl
  have hstarted : (s.banner e).state ≠ .none := by
    intro hno
    rw [GmBanner.holds_idle (Or.inl hno)] at hholds
    cases hholds
  refine h.change he hreleased hbanner ?_ (hself.trans hwaits.symm) hothers
    (fun p hp => Or.inl (hlisted p hp)) hfresh (fun _ => Or.inr (Or.inl hstate))
    (fun e' _ => htype e') fun _ => ?_
  · rw [hnone, hused]
    exact h.accounts.release hclient
  · rw [htype]
    exact h.games e he hstarted

end Change

/-- What the completion of a request can do to a banner. -/
def Settles (b b' : GmBanner) : Prop :=
  b' = b ∨
    b.buf ≠ none ∧
      ((b.state = .setup ∨ b.state = .loading) ∧ b' = { b with state := .loaded } ∨
        b.state = .unloading ∧ b' = { b with state := .unloaded })

section Complete

variable {s s' : GmState} {stranded : Finset PoolSlot}

/-- A request in flight is one for which its entry waits. -/
theorem Kept.request
    (h : Kept s stranded) {i : Nat} {p : ArqPost} (hp : s.arq[i]? = some p) :
    ∃ k, (s.banner p.entry).buf = some k ∧
      (s.banner p.entry).state = p.callback.waiting := by
  have hmem : p ∈ s.arq := List.mem_of_getElem? hp
  have hin : p.callback ∈ s.inFlight p.entry := by
    refine List.mem_map.2 ⟨p, List.mem_filter.2 ⟨hmem, ?_⟩, rfl⟩
    simp
  rw [h.requests p.entry (h.listed p hmem), GmBanner.waitsFor] at hin
  cases hbuf : (s.banner p.entry).buf with
  | none =>
      rw [hbuf] at hin
      cases hin
  | some k =>
      rw [hbuf] at hin
      exact ⟨k, rfl, mem_requests.1 hin⟩

/-- An entry with a request in flight is listed, and its banner holds a buffer. -/
theorem Kept.request_listed
    (h : Kept s stranded) {i : Nat} {p : ArqPost} (hp : s.arq[i]? = some p) :
    s.gmReleased ≤ p.entry ∧ p.entry < s.nextEntry ∧ ¬ (s.banner p.entry).state.Idle := by
  obtain ⟨k, hbuf, hstate⟩ := h.request hp
  have hidle : ¬ (s.banner p.entry).state.Idle := by
    rw [hstate]
    exact waiting_not_idle _
  refine ⟨h.listed p (List.mem_of_getElem? hp), ?_, hidle⟩
  by_contra hno
  exact hidle (Or.inl (h.fresh _ (Nat.le_of_not_lt hno)))

/-- What is in flight once the only request of an entry has completed. -/
theorem Kept.requests_left
    (h : Kept s stranded) {i : Nat} {p : ArqPost} (hp : s.arq[i]? = some p)
    (harq : s'.arq = s.arq.eraseIdx i) :
    s'.inFlight p.entry = [] ∧ ∀ e, e ≠ p.entry → s'.inFlight e = s.inFlight e := by
  constructor
  · obtain ⟨k, hbuf, hstate⟩ := h.request hp
    obtain ⟨l, r, hl, hr⟩ := inFlight_erase (e := p.entry) hp harq
    have hwaits := h.requests p.entry (h.listed p (List.mem_of_getElem? hp))
    rw [GmBanner.waitsFor, hbuf, hstate] at hwaits
    rw [if_pos rfl, hwaits, requests_waiting] at hl
    have hlen := congrArg List.length hl
    simp only [List.length_append, List.length_singleton] at hlen
    rw [hr]
    exact List.length_eq_zero_iff.1 (by rw [List.length_append]; omega)
  · intro e he
    obtain ⟨l, r, hl, hr⟩ := inFlight_erase (e := e) hp harq
    rw [if_neg (Ne.symm he), List.append_nil] at hl
    rw [hl, hr]

/-- A transfer that ends with its buffer in use. -/
theorem Kept.settle
    {i : Nat} {p : ArqPost} (h : Kept s stranded) (hp : s.arq[i]? = some p)
    (heff : Effect s s' p.entry { s.banner p.entry with state := .loaded } s.used
      (s.arq.eraseIdx i)) :
    Kept s' stranded := by
  obtain ⟨k, hbuf, -⟩ := h.request hp
  obtain ⟨he, hbelow, hidle⟩ := h.request_listed hp
  obtain ⟨hself, hothers⟩ := h.requests_left hp heff.arq
  have hclient : clientHolds s stranded (.inl p.entry) = some k := by
    rw [clientHolds, if_pos he, GmBanner.holds_not_idle hidle, hbuf]
  have hloaded : GmBanner.holds { s.banner p.entry with state := .loaded } = some k := by
    rw [GmBanner.holds_not_idle (by simp [GmLoadState.Idle])]
    exact hbuf
  refine h.change he heff.released heff.banner ?_ ?_ hothers ?_
    (h.fresh.effect heff hbelow) (fun hno => ?_) (fun e _ => heff.type e) fun _ => ?_
  · rw [hloaded, ← hclient, Function.update_eq_self, heff.used]
    exact h.accounts
  · rw [hself, GmBanner.waitsFor]
    simp only [hbuf]
    rfl
  · intro q hq
    rw [heff.arq] at hq
    exact Or.inl (List.mem_of_mem_eraseIdx hq)
  · rw [hbuf] at hno
    cases hno
  · rw [heff.type]
    exact h.games _ he fun hno => hidle (Or.inl hno)

/-- A transfer that ends with its buffer given back. -/
theorem Kept.unload
    {i : Nat} {p : ArqPost} (h : Kept s stranded) (hp : s.arq[i]? = some p)
    (heff : Effect s s' p.entry { s.banner p.entry with state := .unloaded }
      (usedWithout s.used (s.banner p.entry).buf) (s.arq.eraseIdx i)) :
    Kept s' stranded := by
  obtain ⟨k, hbuf, -⟩ := h.request hp
  obtain ⟨he, hbelow, hidle⟩ := h.request_listed hp
  obtain ⟨hself, hothers⟩ := h.requests_left hp heff.arq
  refine h.release (k := k) he heff.released heff.banner ?_ ?_ rfl hself hothers
    (fun q hq => ?_) (h.fresh.effect heff hbelow) heff.type
  · rw [heff.used, hbuf, usedWithout_some]
  · rw [GmBanner.holds_not_idle hidle, hbuf]
  · rw [heff.arq] at hq
    exact List.mem_of_mem_eraseIdx hq

/-- The completion of a request, and what it does to each banner. -/
theorem Kept.complete
    (h : Kept s stranded) (i : Nat) :
    Kept (arqComplete s i) stranded ∧
      ∀ e, Settles (s.banner e) ((arqComplete s i).banner e) := by
  cases hp : s.arq[i]? with
  | none =>
      rw [arqComplete_none hp]
      exact ⟨h, fun _ => Or.inl rfl⟩
  | some p =>
      have heff := arqComplete_effect hp
      obtain ⟨k, hbuf, hstate⟩ := h.request hp
      have hne : (s.banner p.entry).buf ≠ none := by
        rw [hbuf]
        exact Option.some_ne_none k
      have hsettles :
          Settles (s.banner p.entry) (settledBanner (s.banner p.entry) p.callback) →
          ∀ e, Settles (s.banner e) ((arqComplete s i).banner e) := by
        intro hself e
        rw [heff.banner]
        by_cases hee : e = p.entry
        · rw [hee, Function.update_self]
          exact hself
        · rw [Function.update_of_ne hee]
          exact Or.inl rfl
      cases hcallback : p.callback with
      | setup =>
          rw [hcallback] at heff hsettles hstate
          exact ⟨h.settle hp heff,
            hsettles (Or.inr ⟨hne, Or.inl ⟨Or.inl hstate, rfl⟩⟩)⟩
      | load =>
          rw [hcallback] at heff hsettles hstate
          exact ⟨h.settle hp heff,
            hsettles (Or.inr ⟨hne, Or.inl ⟨Or.inr hstate, rfl⟩⟩)⟩
      | unload =>
          rw [hcallback] at heff hsettles hstate
          exact ⟨h.unload hp heff, hsettles (Or.inr ⟨hne, Or.inr ⟨hstate, rfl⟩⟩)⟩

/-- What holds of each banner and is kept when requests complete, holds at the end. -/
theorem Kept.drains
    {P : Nat → GmBanner → Prop}
    (hP : ∀ e b b', P e b → Settles b b' → P e b')
    (h : Kept s stranded) (hs : ∀ e, s.gmReleased ≤ e → P e (s.banner e))
    (hdrains : Drains s s') :
    Kept s' stranded ∧ s'.arq = [] ∧ SameShape s s' ∧
      ∀ e, s.gmReleased ≤ e → P e (s'.banner e) := by
  induction hdrains with
  | done harq => exact ⟨h, harq, .refl _, hs⟩
  | @complete s s' i hi _ ih =>
      obtain ⟨hkept, hsettles⟩ := h.complete i
      have hshape : SameShape s (arqComplete s i) :=
        (arqComplete_effect (List.getElem?_eq_getElem hi)).shape
      obtain ⟨hkept', harq, hshape', hall⟩ := ih hkept fun e he => by
        rw [hshape.released] at he
        exact hP e _ _ (hs e he) (hsettles e)
      refine ⟨hkept', harq, hshape.trans hshape', fun e he => hall e ?_⟩
      rw [hshape.released]
      exact he

end Complete

/-- A banner that can be loaded: not in transfer, unless it found the pool exhausted. -/
def GmBanner.Ready (b : GmBanner) : Prop :=
  b.state = .none ∨ b.state = .loaded ∨ b.state = .unloaded ∨
    b.state = .loading ∧ b.buf = none

/-- A banner that stays on the screen, or comes there. -/
def GmBanner.Coming (b : GmBanner) : Prop :=
  b.state = .none ∨ b.state = .loaded ∨ b.state = .loading ∧ b.buf ≠ none

/-- `gm_get_banner_buf` does not return NULL when these entries are loaded. -/
def LoadsServed : GmState → List Nat → Prop
  | _, [] => True
  | s, e :: rest =>
      (¬ ((s.banner e).state = .none ∨ (s.banner e).state = .loaded) → s.freeSlot ≠ none) ∧
        LoadsServed (gmBannerLoad s e) rest

section Lines

variable {s : GmState} {stranded : Finset PoolSlot} {e : Nat} {l : List Nat}

theorem freeSlot_of_unused {k : PoolSlot} (h : s.used k = false) :
    ∃ k, s.freeSlot = some k := by
  cases hslot : s.freeSlot with
  | some k => exact ⟨k, rfl⟩
  | none =>
      have hused := List.find?_eq_none.1 hslot k (List.mem_finRange k)
      have hnot : (s.gmBannerPool k).used = false := h
      rw [hnot] at hused
      exact absurd rfl hused

/-- With fewer holders and stranded buffers than buffers, one is free. -/
theorem Kept.exists_free
    (h : Kept s stranded) (holders : Finset Nat)
    (hholders : ∀ e, s.gmReleased ≤ e → (s.banner e).holds ≠ none → e ∈ holders)
    (hcard : stranded.card + holders.card < assetBufferCount) :
    ∃ k, s.freeSlot = some k := by
  have hclients : ∀ c k, clientHolds s stranded c = some k → c ∈ holders.disjSum stranded := by
    intro c k hc
    cases c with
    | inl e =>
        by_cases he : s.gmReleased ≤ e
        · rw [clientHolds, if_pos he] at hc
          refine Finset.inl_mem_disjSum.2 (hholders e he ?_)
          rw [hc]
          exact Option.some_ne_none k
        · rw [clientHolds, if_neg he] at hc
          cases hc
    | inr k' =>
        by_cases hk' : k' ∈ stranded
        · exact Finset.inr_mem_disjSum.2 hk'
        · rw [clientHolds, if_neg hk'] at hc
          cases hc
  have hfew : (holders.disjSum stranded).card < Fintype.card PoolSlot := by
    rw [Finset.card_disjSum, Fintype.card_fin]
    omega
  obtain ⟨k, hk⟩ := h.accounts.exists_free (holders.disjSum stranded) hclients hfew
  exact freeSlot_of_unused hk

/-- A banner that is ready and takes a buffer. -/
theorem Kept.load
    {k : PoolSlot} (h : Kept s stranded) (he : s.gmReleased ≤ e) (hlt : e < s.nextEntry)
    (hready : (s.banner e).Ready)
    (hst : ¬ ((s.banner e).state = .none ∨ (s.banner e).state = .loaded))
    (hslot : s.freeSlot = some k) :
    Kept (gmBannerLoad s e) stranded := by
  have heff := gmBannerLoad_effect hslot hst
  have hnothing : (s.banner e).holds = none ∧ (s.banner e).waitsFor = [] := by
    rcases hready with hno | hno | hunloaded | ⟨hloading, hbuf⟩
    · exact absurd (Or.inl hno) hst
    · exact absurd (Or.inr hno) hst
    · refine ⟨GmBanner.holds_idle (Or.inr hunloaded), ?_⟩
      rw [GmBanner.waitsFor, hunloaded]
      cases (s.banner e).buf <;> rfl
    · exact ⟨by rw [GmBanner.holds_not_idle (by rw [hloading]; decide), hbuf],
        by rw [GmBanner.waitsFor, hbuf]⟩
  exact h.acquire he heff.released heff.banner heff.used heff.arq rfl hnothing.1 hnothing.2
    (freeSlot_some hslot) rfl rfl (h.fresh.load hlt) (fun e' _ => heff.type e')
    (by rw [heff.type]; exact h.games e he fun hno => hst (Or.inl hno))

/-- Loading entries that are ready, with a buffer for each. -/
theorem Kept.loads
    (h : Kept s stranded) (hnodup : l.Nodup)
    (hl : ∀ e ∈ l, s.gmReleased ≤ e ∧ e < s.nextEntry ∧ (s.banner e).Ready)
    (holders : Finset Nat)
    (hholders : ∀ e, s.gmReleased ≤ e → (s.banner e).holds ≠ none → e ∈ holders)
    (hmem : ∀ e ∈ l, (s.banner e).state ≠ .none → e ∈ holders)
    (hcard : stranded.card + holders.card ≤ assetBufferCount) :
    Kept (l.foldl gmBannerLoad s) stranded ∧ LoadsServed s l ∧
      ∀ e ∈ l, ((l.foldl gmBannerLoad s).banner e).Coming := by
  induction l generalizing s with
  | nil => exact ⟨h, trivial, fun e he => absurd he List.not_mem_nil⟩
  | cons e l ih =>
      obtain ⟨hel, hnodup'⟩ := List.nodup_cons.1 hnodup
      obtain ⟨he, hlt, hready⟩ := hl e List.mem_cons_self
      have hshape := gmBannerLoad_shape s e
      -- the entries that follow are as they were
      have hothers : ∀ e' ∈ l, (gmBannerLoad s e).banner e' = s.banner e' := by
        intro e' he'
        refine (gmBannerLoad_others ?_).1
        rintro rfl
        exact hel he'
      have hl' : ∀ e' ∈ l, (gmBannerLoad s e).gmReleased ≤ e' ∧
          e' < (gmBannerLoad s e).nextEntry ∧ ((gmBannerLoad s e).banner e').Ready := by
        intro e' he'
        rw [hshape.released, hshape.nextEntry, hothers e' he']
        exact hl e' (List.mem_cons_of_mem e he')
      have hmem' : ∀ e' ∈ l, ((gmBannerLoad s e).banner e').state ≠ .none → e' ∈ holders := by
        intro e' he'
        rw [hothers e' he']
        exact hmem e' (List.mem_cons_of_mem e he')
      have hself : ((e :: l).foldl gmBannerLoad s).banner e = (gmBannerLoad s e).banner e :=
        (foldl_load_others hel).1
      have hstep : Kept (gmBannerLoad s e) stranded ∧
          (¬ ((s.banner e).state = .none ∨ (s.banner e).state = .loaded) →
            s.freeSlot ≠ none) ∧
          ((gmBannerLoad s e).banner e).Coming ∧
          ∀ e', s.gmReleased ≤ e' → ((gmBannerLoad s e).banner e').holds ≠ none →
            e' ∈ holders := by
        by_cases hst : (s.banner e).state = .none ∨ (s.banner e).state = .loaded
        · rw [gmBannerLoad_idle hst]
          refine ⟨h, fun hno => absurd hst hno, ?_, hholders⟩
          exact hst.imp id Or.inl
        · have hin : e ∈ holders :=
            hmem e List.mem_cons_self fun hno => hst (Or.inl hno)
          have hnothing : (s.banner e).holds = none := by
            rcases hready with hno | hno | hunloaded | ⟨hloading, hbuf⟩
            · exact absurd (Or.inl hno) hst
            · exact absurd (Or.inr hno) hst
            · exact GmBanner.holds_idle (Or.inr hunloaded)
            · rw [GmBanner.holds_not_idle (by rw [hloading]; decide), hbuf]
          obtain ⟨k, hslot⟩ := h.exists_free (holders.erase e)
            (fun e' he' hholds => Finset.mem_erase.2
              ⟨fun heq => hholds (by rw [heq, hnothing]), hholders e' he' hholds⟩)
            (by
              have hpos := Finset.card_pos.2 ⟨e, hin⟩
              rw [Finset.card_erase_of_mem hin]
              omega)
          have heff := gmBannerLoad_effect hslot hst
          refine ⟨h.load he hlt hready hst hslot,
            fun _ => by rw [hslot]; exact Option.some_ne_none k, ?_, fun e' he' hholds => ?_⟩
          · rw [heff.banner, Function.update_self]
            exact Or.inr (Or.inr ⟨rfl, Option.some_ne_none k⟩)
          · by_cases hee : e' = e
            · rw [hee]
              exact hin
            · rw [(gmBannerLoad_others hee).1] at hholds
              exact hholders e' he' hholds
      obtain ⟨hkept, hserved, hcoming, hholders'⟩ := hstep
      obtain ⟨hkept', hserved', hcoming'⟩ := ih hkept hnodup' hl'
        (fun e' he' => hholders' e' (by rwa [hshape.released] at he')) hmem'
      refine ⟨hkept', ⟨hserved, hserved'⟩, fun e' he' => ?_⟩
      rcases List.mem_cons.1 he' with heq | hmem
      · rw [heq, hself]
        exact hcoming
      · exact hcoming' e' hmem

/-- A banner that is not in transfer gives its buffer back. -/
theorem Kept.free
    (h : Kept s stranded) (he : s.gmReleased ≤ e) (hlt : e < s.nextEntry)
    (hst : (s.banner e).state = .none ∨ (s.banner e).state = .loaded) :
    Kept (gmBannerFree s e) stranded := by
  rcases hst with hst | hst
  · rw [gmBannerFree_idle (Or.inl hst)]
    exact h
  · have heff := gmBannerFree_effect (Or.inr hst)
    have hidle : ¬ (s.banner e).state.Idle := by
      rw [hst]
      decide
    obtain ⟨k, hbuf⟩ : ∃ k, (s.banner e).buf = some k := by
      cases hbuf : (s.banner e).buf with
      | some k => exact ⟨k, rfl⟩
      | none =>
          rcases h.buffered e he hbuf with hno | hno | hno <;> rw [hst] at hno <;> cases hno
    refine h.release (k := k) he heff.released heff.banner ?_ ?_ rfl ?_
      (fun e' _ => inFlight_congr heff.arq) (fun p hp => heff.arq ▸ hp)
      (h.fresh.free hlt) heff.type
    · rw [heff.used, hbuf, usedWithout_some]
    · rw [GmBanner.holds_not_idle hidle, hbuf]
    · rw [inFlight_congr heff.arq, h.requests e he, GmBanner.waitsFor, hbuf, hst]
      rfl

/-- Freeing entries that are not in transfer. -/
theorem Kept.frees
    (h : Kept s stranded) (hnodup : l.Nodup)
    (hl : ∀ e ∈ l, s.gmReleased ≤ e ∧ e < s.nextEntry ∧
      ((s.banner e).state = .none ∨ (s.banner e).state = .loaded)) :
    Kept (l.foldl gmBannerFree s) stranded := by
  induction l generalizing s with
  | nil => exact h
  | cons e l ih =>
      obtain ⟨hel, hnodup'⟩ := List.nodup_cons.1 hnodup
      obtain ⟨he, hlt, hst⟩ := hl e List.mem_cons_self
      refine ih (h.free he hlt hst) hnodup' fun e' he' => ?_
      have hne : e' ≠ e := by
        rintro rfl
        exact hel he'
      rw [(gmBannerFree_shape s e).released, (gmBannerFree_shape s e).nextEntry,
        (gmBannerFree_entry s e).2.2 e' hne]
      exact hl e' (List.mem_cons_of_mem e he')

end Lines

section Enumerate

variable {s s' : GmState} {stranded : Finset PoolSlot} {b : GmBanner}

theorem Kept.next_nothing (h : Kept s stranded) :
    (s.banner s.nextEntry).holds = none ∧ (s.banner s.nextEntry).waitsFor = [] := by
  have hnone := h.fresh _ (le_refl s.nextEntry)
  refine ⟨GmBanner.holds_idle (Or.inl hnone), ?_⟩
  rw [GmBanner.waitsFor, hnone]
  cases (s.banner s.nextEntry).buf <;> rfl

/-- A new entry that takes no buffer. -/
theorem Kept.newWithout
    (h : Kept s stranded) (hnew : NewEntry s s' b s.used s.arq) (hbuf : b.buf = none)
    (hst : b.state = .none ∨ b.state = .loading)
    (hgame : b.state ≠ .none → (s'.entry s.nextEntry).type = .game) :
    Kept s' stranded := by
  have hholds : b.holds = none := by
    rcases hst with hst | hst
    · exact GmBanner.holds_idle (Or.inl hst)
    · rw [GmBanner.holds_not_idle (by rw [hst]; decide), hbuf]
  have hlisted : s.gmReleased ≤ s.nextEntry := Nat.le_add_right ..
  refine h.idle hlisted hnew.released hnew.banner hnew.used hnew.arq
    h.next_nothing.1 hholds ?_ (h.fresh.next hnew) (fun _ => ?_) hnew.type hgame
  · rw [h.next_nothing.2, GmBanner.waitsFor, hbuf]
  · exact hst.imp id Or.inr

/-- A new entry that takes a buffer. -/
theorem Kept.newWith
    {k : PoolSlot} {p : ArqPost}
    (h : Kept s stranded)
    (hnew : NewEntry s s' b (Function.update s.used k true) (s.arq ++ [p]))
    (hslot : s.freeSlot = some k) (hentry : p.entry = s.nextEntry) (hbuf : b.buf = some k)
    (hbusy : b.state.requests = [p.callback])
    (hgame : (s'.entry s.nextEntry).type = .game) :
    Kept s' stranded :=
  h.acquire (Nat.le_add_right ..) hnew.released hnew.banner hnew.used hnew.arq hentry
    h.next_nothing.1 h.next_nothing.2 (freeSlot_some hslot) hbuf hbusy (h.fresh.next hnew)
    hnew.type hgame

theorem gmPublish_type (s : GmState) (useBanner : Bool) (e : Nat) :
    ((gmPublish s useBanner).entry e).type = (s.entry e).type := by
  show (Function.update s.entry s.nextEntry _ e).type = _
  by_cases he : e = s.nextEntry
  · rw [he, Function.update_self]
  · rw [Function.update_of_ne he]

/-- A game with a banner is published as a game. -/
theorem gmCheckGame_type {c : CheckState} {f : ListedFile}
    (h : f.outcome.info.bnrOffset ≠ 0) :
    ((gmCheckGame c f).gm.entry c.gm.nextEntry).type = .game := by
  obtain ⟨s₁, hsame, heq⟩ := gmCheckGame_placing (c := c) (f := f) h
  have htype : (s₁.entry c.gm.nextEntry).type = .game := by
    rw [hsame.entry, gmNewGame_entry]
  rw [heq, gmPublish_type]
  cases hslot : s₁.freeSlot with
  | none =>
      rw [(gmPlaceBanner_exhausted c.aramOffset (forceUnload c.gm f.topLineNum) hslot).type,
        htype]
  | some k =>
      rw [(gmPlaceBanner_effect c.aramOffset (forceUnload c.gm f.topLineNum) hslot).type,
        htype]

end Enumerate

end Games
end Cubiboot
