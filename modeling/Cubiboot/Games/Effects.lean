import Cubiboot.Games.Enumeration

/-!
# What the asset functions change

`Effect s s' e b used posts` says what a function has done to the banner of one
entry, to the marks of the pool and to the requests in flight.  Each asset
function is described once by its effect, case by case, and the developments
that follow look at nothing else of it.

Results: `gmBannerLoad_effect`, `gmBannerLoad_exhausted` and `gmBannerLoad_idle`, the
three cases of a load; `gmBannerFree_effect` and `gmPlaceBanner_effect`, of a free and
of a first placement; and `arqComplete_effect`, the completion of a request.
-/

namespace Cubiboot
namespace Games

open CopyRange

/-- The mark of a pool buffer. -/
def GmState.used (s : GmState) (k : PoolSlot) : Bool :=
  (s.gmBannerPool k).used

/-- The callbacks of the requests in flight for an entry. -/
def GmState.inFlight (s : GmState) (e : Nat) : List ArqCallback :=
  (s.arq.filter fun p => p.entry = e).map ArqPost.callback

/-- The effect of a function on the banner of entry `e`. -/
structure Effect
    (s s' : GmState) (e : Nat) (b : GmBanner)
    (used : PoolSlot → Bool) (posts : List ArqPost) : Prop where
  banner : s'.banner = Function.update s.banner e b
  used : s'.used = used
  arq : s'.arq = posts
  type : ∀ e, (s'.entry e).type = (s.entry e).type
  released : s'.gmReleased = s.gmReleased
  count : s'.gmEntryCount = s.gmEntryCount

section Accessors

variable {s : GmState} {e : Nat} {f : GmBanner → GmBanner}
variable {k : PoolSlot} {p : ArqPost}

@[simp] theorem banner_setBanner :
    (s.setBanner e f).banner = Function.update s.banner e (f (s.banner e)) := by
  funext e'
  by_cases he : e' = e
  · rw [he, Function.update_self]
    show ((Function.update s.entry e _) e).banner = _
    rw [Function.update_self]
    rfl
  · rw [Function.update_of_ne he]
    show ((Function.update s.entry e _) e').banner = _
    rw [Function.update_of_ne he]
    rfl

@[simp] theorem type_setBanner (e' : Nat) :
    ((s.setBanner e f).entry e').type = (s.entry e').type := by
  show ((Function.update s.entry e _) e').type = _
  by_cases he : e' = e
  · rw [he, Function.update_self]
  · rw [Function.update_of_ne he]

@[simp] theorem path_setBanner (e' : Nat) :
    ((s.setBanner e f).entry e').path = (s.entry e').path := by
  show ((Function.update s.entry e _) e').path = _
  by_cases he : e' = e
  · rw [he, Function.update_self]
  · rw [Function.update_of_ne he]

@[simp] theorem used_setBanner : (s.setBanner e f).used = s.used := rfl

@[simp] theorem arq_setBanner : (s.setBanner e f).arq = s.arq := rfl

@[simp] theorem freeSlot_setBanner :
    (s.setBanner e f).freeSlot = s.freeSlot := rfl

@[simp] theorem banner_setUsed (u : Bool) :
    (s.setUsed k u).banner = s.banner := rfl

@[simp] theorem arq_setUsed (u : Bool) : (s.setUsed k u).arq = s.arq := rfl

@[simp] theorem used_setUsed (u : Bool) :
    (s.setUsed k u).used = Function.update s.used k u := by
  funext k'
  show ((Function.update s.gmBannerPool k _) k').used = _
  by_cases hk : k' = k
  · rw [hk, Function.update_self, Function.update_self]
  · rw [Function.update_of_ne hk, Function.update_of_ne hk]
    rfl

@[simp] theorem banner_setData (d : Nat → BnrByte) :
    (s.setData k d).banner = s.banner := rfl

@[simp] theorem arq_setData (d : Nat → BnrByte) :
    (s.setData k d).arq = s.arq := rfl

@[simp] theorem used_setData (d : Nat → BnrByte) :
    (s.setData k d).used = s.used := by
  funext k'
  show ((Function.update s.gmBannerPool k _) k').used = _
  by_cases hk : k' = k
  · rw [hk, Function.update_self]
    rfl
  · rw [Function.update_of_ne hk]
    rfl

@[simp] theorem banner_setDesc (d : GmDesc) :
    (s.setDesc e d).banner = s.banner := by
  funext e'
  show ((Function.update s.entry e _) e').banner = _
  by_cases he : e' = e
  · rw [he, Function.update_self]
    rfl
  · rw [Function.update_of_ne he]
    rfl

@[simp] theorem type_setDesc (d : GmDesc) (e' : Nat) :
    ((s.setDesc e d).entry e').type = (s.entry e').type := by
  show ((Function.update s.entry e _) e').type = _
  by_cases he : e' = e
  · rw [he, Function.update_self]
  · rw [Function.update_of_ne he]

@[simp] theorem path_setDesc (d : GmDesc) (e' : Nat) :
    ((s.setDesc e d).entry e').path = (s.entry e').path := by
  show ((Function.update s.entry e _) e').path = _
  by_cases he : e' = e
  · rw [he, Function.update_self]
  · rw [Function.update_of_ne he]

@[simp] theorem data_setUsed (u : Bool) (k' : PoolSlot) :
    ((s.setUsed k u).gmBannerPool k').data = (s.gmBannerPool k').data := by
  show ((Function.update s.gmBannerPool k _) k').data = _
  by_cases hk : k' = k
  · rw [hk, Function.update_self]
  · rw [Function.update_of_ne hk]

@[simp] theorem data_setData (d : Nat → BnrByte) :
    ((s.setData k d).gmBannerPool k).data = d := by
  show ((Function.update s.gmBannerPool k _) k).data = _
  rw [Function.update_self]

@[simp] theorem pool_setBanner :
    (s.setBanner e f).gmBannerPool = s.gmBannerPool := rfl

@[simp] theorem pool_setDesc (d : GmDesc) :
    (s.setDesc e d).gmBannerPool = s.gmBannerPool := rfl

@[simp] theorem pool_post : (s.post p).gmBannerPool = s.gmBannerPool := rfl

@[simp] theorem used_setDesc (d : GmDesc) : (s.setDesc e d).used = s.used := rfl

@[simp] theorem arq_setDesc (d : GmDesc) : (s.setDesc e d).arq = s.arq := rfl

@[simp] theorem entry_setUsed (u : Bool) : (s.setUsed k u).entry = s.entry := rfl

@[simp] theorem entry_setData (d : Nat → BnrByte) :
    (s.setData k d).entry = s.entry := rfl

@[simp] theorem entry_post : (s.post p).entry = s.entry := rfl

@[simp] theorem banner_post : (s.post p).banner = s.banner := rfl

@[simp] theorem used_post : (s.post p).used = s.used := rfl

@[simp] theorem arq_post : (s.post p).arq = s.arq ++ [p] := rfl

end Accessors

/-- A buffer handed out was free. -/
theorem freeSlot_some
    {s : GmState} {k : PoolSlot} (h : s.freeSlot = some k) :
    s.used k = false := by
  have := List.find?_some h
  simpa [GmState.used] using this

section Functions

variable {s : GmState} {e : Nat}

theorem gmBannerLoad_idle
    (h : (s.banner e).state = .none ∨ (s.banner e).state = .loaded) :
    gmBannerLoad s e = s := by
  unfold gmBannerLoad
  rw [if_pos h]

/-- A load that gets a buffer. -/
theorem gmBannerLoad_effect
    {k : PoolSlot} (hslot : s.freeSlot = some k)
    (h : ¬ ((s.banner e).state = .none ∨ (s.banner e).state = .loaded)) :
    Effect s (gmBannerLoad s e) e
      { s.banner e with state := .loading, buf := some k }
      (Function.update s.used k true)
      (s.arq ++ [⟨e, .load, some k, (s.banner e).aramOffset⟩]) := by
  unfold gmBannerLoad
  rw [if_neg h]
  simp only [gmGetBannerBuf, freeSlot_setBanner, hslot, Option.map_some]
  exact
    { banner := by simp
      used := by simp
      arq := by simp
      type := fun e' => by simp
      released := rfl
      count := rfl }

/-- A load that finds the pool exhausted. -/
theorem gmBannerLoad_exhausted
    (hslot : s.freeSlot = none)
    (h : ¬ ((s.banner e).state = .none ∨ (s.banner e).state = .loaded)) :
    Effect s (gmBannerLoad s e) e { s.banner e with state := .loading }
      s.used s.arq := by
  unfold gmBannerLoad
  rw [if_neg h]
  simp only [gmGetBannerBuf, freeSlot_setBanner, hslot, Option.map_none]
  exact ⟨by simp, by simp, by simp, fun e' => by simp, rfl, rfl⟩

theorem gmBannerFree_idle
    (h : (s.banner e).state = .none ∨ (s.banner e).state = .unloading) :
    gmBannerFree s e = s := by
  unfold gmBannerFree
  rw [if_pos h]

/-- A free that has to wait. -/
theorem gmBannerFree_deferred
    (h : (s.banner e).state = .loading ∨ (s.banner e).state = .setup) :
    Effect s (gmBannerFree s e) e { s.banner e with scheduleFree := true }
      s.used s.arq := by
  have hne : ¬ ((s.banner e).state = .none ∨ (s.banner e).state = .unloading) := by
    rcases h with h | h <;> simp [h]
  unfold gmBannerFree
  rw [if_neg hne, if_pos h]
  exact ⟨by simp, by simp, by simp, fun e' => by simp, rfl, rfl⟩

/-- The marks once the buffer of an entry has been given back. -/
def usedWithout (used : PoolSlot → Bool) (buf : Option PoolSlot) : PoolSlot → Bool :=
  match buf with
  | some k => Function.update used k false
  | none => used

theorem usedWithout_some (used : PoolSlot → Bool) (k : PoolSlot) :
    usedWithout used (some k) = Function.update used k false :=
  rfl

@[simp] theorem used_gmFreeBannerBuf (buf : Option PoolSlot) :
    (gmFreeBannerBuf s buf).used = usedWithout s.used buf := by
  cases buf <;> simp [gmFreeBannerBuf, usedWithout]

@[simp] theorem banner_gmFreeBannerBuf (buf : Option PoolSlot) :
    (gmFreeBannerBuf s buf).banner = s.banner := by
  cases buf <;> rfl

@[simp] theorem arq_gmFreeBannerBuf (buf : Option PoolSlot) :
    (gmFreeBannerBuf s buf).arq = s.arq := by
  cases buf <;> rfl

@[simp] theorem entry_gmFreeBannerBuf (buf : Option PoolSlot) :
    (gmFreeBannerBuf s buf).entry = s.entry := by
  cases buf <;> rfl

theorem list_gmFreeBannerBuf (buf : Option PoolSlot) :
    (gmFreeBannerBuf s buf).gmReleased = s.gmReleased ∧
      (gmFreeBannerBuf s buf).gmEntryCount = s.gmEntryCount := by
  cases buf <;> exact ⟨rfl, rfl⟩

/-- A free that gives the buffer back. -/
theorem gmBannerFree_effect
    (h : (s.banner e).state = .unloaded ∨ (s.banner e).state = .loaded) :
    Effect s (gmBannerFree s e) e
      { s.banner e with buf := none, state := .unloaded }
      (usedWithout s.used (s.banner e).buf) s.arq := by
  have h₁ : ¬ ((s.banner e).state = .none ∨ (s.banner e).state = .unloading) := by
    rcases h with h | h <;> simp [h]
  have h₂ : ¬ ((s.banner e).state = .loading ∨ (s.banner e).state = .setup) := by
    rcases h with h | h <;> simp [h]
  unfold gmBannerFree
  rw [if_neg h₁, if_neg h₂]
  refine ⟨by simp, by simp, by simp, fun e' => by simp, ?_, ?_⟩
  · exact (list_gmFreeBannerBuf (s := s.setBanner e _) _).1
  · exact (list_gmFreeBannerBuf (s := s.setBanner e _) _).2

/-- The banner of an entry when its request has completed. -/
def settledBanner (b : GmBanner) : ArqCallback → GmBanner
  | .setup => { b with state := .loaded }
  | .unload => { b with state := .unloaded }
  | .load => { b with state := .loaded }

/-- The marks of the pool when a request of an entry with this buffer has completed. -/
def settledUsed
    (used : PoolSlot → Bool) (buf : Option PoolSlot) :
    ArqCallback → PoolSlot → Bool
  | .unload => usedWithout used buf
  | _ => used

/-- A transfer moves bytes only. -/
theorem arqTransfer_same (p : ArqPost) :
    (arqTransfer s p).banner = s.banner ∧
      (arqTransfer s p).used = s.used ∧
      (arqTransfer s p).arq = s.arq ∧
      (arqTransfer s p).entry = s.entry ∧
      (arqTransfer s p).gmReleased = s.gmReleased ∧
      (arqTransfer s p).gmEntryCount = s.gmEntryCount := by
  unfold arqTransfer
  cases p.buf with
  | none => exact ⟨rfl, rfl, rfl, rfl, rfl, rfl⟩
  | some k =>
      cases p.callback with
      | setup => exact ⟨rfl, rfl, rfl, rfl, rfl, rfl⟩
      | unload => exact ⟨rfl, rfl, rfl, rfl, rfl, rfl⟩
      | load => exact ⟨rfl, used_setData _, rfl, rfl, rfl, rfl⟩

theorem arqCallback_effect (p : ArqPost) :
    Effect s (arqCallback s p) p.entry
      (settledBanner (s.banner p.entry) p.callback)
      (settledUsed s.used (s.banner p.entry).buf p.callback) s.arq := by
  unfold arqCallback
  cases p.callback with
  | setup =>
      exact ⟨by simp [arqBannerCallbackSetup, settledBanner],
        by simp [arqBannerCallbackSetup, settledUsed],
        by simp [arqBannerCallbackSetup],
        fun e' => by simp [arqBannerCallbackSetup], rfl, rfl⟩
  | unload =>
      refine ⟨by simp [arqBannerCallbackUnload, settledBanner],
        by simp [arqBannerCallbackUnload, settledUsed],
        by simp [arqBannerCallbackUnload],
        fun e' => by simp [arqBannerCallbackUnload], ?_, ?_⟩
      · exact (list_gmFreeBannerBuf (s := s.setBanner p.entry _) _).1
      · exact (list_gmFreeBannerBuf (s := s.setBanner p.entry _) _).2
  | load =>
      exact ⟨by simp [arqBannerCallbackLoad, settledBanner],
        by simp [arqBannerCallbackLoad, settledUsed],
        by simp [arqBannerCallbackLoad],
        fun e' => by simp [arqBannerCallbackLoad], rfl, rfl⟩

/-- Where no request is in flight nothing is completed. -/
theorem arqComplete_none
    {i : Nat} (h : s.arq[i]? = none) : arqComplete s i = s := by
  unfold arqComplete
  rw [h]

/-- Completion of a request in flight. -/
theorem arqComplete_effect
    {i : Nat} {p : ArqPost} (h : s.arq[i]? = some p) :
    Effect s (arqComplete s i) p.entry
      (settledBanner (s.banner p.entry) p.callback)
      (settledUsed s.used (s.banner p.entry).buf p.callback)
      (s.arq.eraseIdx i) := by
  unfold arqComplete
  rw [h]
  obtain ⟨h₁, h₂, h₃, h₄, h₅, h₆⟩ :=
    arqTransfer_same (s := { s with arq := s.arq.eraseIdx i }) p
  have heff := arqCallback_effect
    (s := arqTransfer { s with arq := s.arq.eraseIdx i } p) p
  rw [h₁, h₂, h₃] at heff
  exact ⟨heff.banner.trans (by rw [h₁]; rfl), heff.used, heff.arq,
    fun e' => (heff.type e').trans (by rw [h₄]), heff.released.trans h₅,
    heff.count.trans h₆⟩

/-- What the part of `gm_load_banner` before the label `cached` leaves alone. -/
structure SameList (s s' : GmState) : Prop where
  entry : s'.entry = s.entry
  pool : s'.gmBannerPool = s.gmBannerPool
  arq : s'.arq = s.arq
  released : s'.gmReleased = s.gmReleased
  count : s'.gmEntryCount = s.gmEntryCount

theorem SameList.refl (s : GmState) : SameList s s := ⟨rfl, rfl, rfl, rfl, rfl⟩

theorem SameList.banner
    {s' : GmState} (h : SameList s s') : s'.banner = s.banner := by
  funext e'
  show (s'.entry e').banner = (s.entry e').banner
  rw [h.entry]

theorem SameList.used
    {s' : GmState} (h : SameList s s') : s'.used = s.used := by
  funext k
  show (s'.gmBannerPool k).used = (s.gmBannerPool k).used
  rw [h.pool]

theorem SameList.freeSlot
    {s' : GmState} (h : SameList s s') : s'.freeSlot = s.freeSlot := by
  simp only [GmState.freeSlot, h.pool]

theorem dvdCloseIfOpen_same (fd : Option Nat) :
    SameList s (dvdCloseIfOpen s fd) := by
  cases fd <;> exact ⟨rfl, rfl, rfl, rfl, rfl⟩

theorem dvdCloseIfOpen_cache (s : GmState) (fd : Option Nat) :
    (dvdCloseIfOpen s fd).bnrCache = s.bnrCache ∧
      (dvdCloseIfOpen s fd).bannerBuffer = s.bannerBuffer := by
  cases fd <;> exact ⟨rfl, rfl⟩

theorem gmFetchBanner_same
    (path : Path) (bnrOffset : Nat) (openFd : Option Nat) (o : FileOutcome) :
    SameList s (gmFetchBanner s path bnrOffset openFd o).2 := by
  unfold gmFetchBanner
  split
  · rename_i bnr _
    obtain ⟨h₁, h₂, h₃, h₄, h₅⟩ :=
      dvdCloseIfOpen_same (s := { s with bannerBuffer := bnr }) openFd
    exact ⟨h₁, h₂, h₃, h₄, h₅⟩
  · split
    · exact SameList.refl s
    · by_cases hfd : openFd.isSome = true
      · rw [if_pos hfd]
        exact ⟨rfl, rfl, rfl, rfl, rfl⟩
      · rw [if_neg hfd]
        exact ⟨rfl, rfl, rfl, rfl, rfl⟩

/-- The state and the callback of a banner that has been placed. -/
def placedState (forceUnload : Bool) : GmLoadState :=
  if forceUnload then .unloading else .setup

def placedCallback (forceUnload : Bool) : ArqCallback :=
  if forceUnload then .unload else .setup

/-- The banner is placed in a buffer of the pool. -/
theorem gmPlaceBanner_effect
    (aramOffset : Nat) (unload : Bool) {k : PoolSlot}
    (hslot : s.freeSlot = some k) :
    Effect s (gmPlaceBanner s e aramOffset unload).2 e
      { s.banner e with
        aramOffset := aramOffset
        state := placedState unload
        buf := some k }
      (Function.update s.used k true)
      (s.arq ++ [⟨e, placedCallback unload, some k, aramOffset⟩]) := by
  unfold gmPlaceBanner
  simp only [gmGetBannerBuf, freeSlot_setBanner, hslot, Option.map_some]
  cases unload with
  | false =>
      refine ⟨?_, ?_, ?_, fun e' => ?_, rfl, rfl⟩ <;>
        simp [gmBannerSetup, placedState, placedCallback]
  | true =>
      refine ⟨?_, ?_, ?_, fun e' => ?_, rfl, rfl⟩ <;>
        simp [gmBannerSetupUnload, placedState, placedCallback]

/-- The pool is exhausted. -/
theorem gmPlaceBanner_exhausted
    (aramOffset : Nat) (unload : Bool) (hslot : s.freeSlot = none) :
    Effect s (gmPlaceBanner s e aramOffset unload).2 e
      { s.banner e with state := .loading } s.used s.arq := by
  unfold gmPlaceBanner
  simp only [gmGetBannerBuf, freeSlot_setBanner, hslot, Option.map_none]
  exact ⟨by simp, by simp, by simp, fun e' => by simp, rfl, rfl⟩

/-- Placing a banner leaves the cache alone. -/
theorem gmPlaceBanner_cache
    (s : GmState) (e aramOffset : Nat) (unload : Bool) :
    (gmPlaceBanner s e aramOffset unload).2.bnrCache = s.bnrCache := by
  simp only [gmPlaceBanner, gmGetBannerBuf, freeSlot_setBanner]
  cases s.freeSlot with
  | none =>
      rfl
  | some k =>
      cases unload <;> rfl

end Functions

section Requests

variable {s s' : GmState} {e : Nat}

theorem inFlight_append
    {p : ArqPost} (h : s'.arq = s.arq ++ [p]) :
    s'.inFlight e =
      s.inFlight e ++ if p.entry = e then [p.callback] else [] := by
  unfold GmState.inFlight
  rw [h, List.filter_append, List.map_append]
  congr 1
  by_cases hp : p.entry = e
  · simp [hp]
  · simp [hp]

theorem inFlight_congr
    (h : s'.arq = s.arq) : s'.inFlight e = s.inFlight e := by
  unfold GmState.inFlight
  rw [h]

/-- The requests before and after a completion. -/
theorem inFlight_erase
    {i : Nat} {p : ArqPost} (hp : s.arq[i]? = some p)
    (h : s'.arq = s.arq.eraseIdx i) :
    ∃ l r, s.inFlight e = l ++ (if p.entry = e then [p.callback] else []) ++ r ∧
      s'.inFlight e = l ++ r := by
  obtain ⟨hi, hpi⟩ := List.getElem?_eq_some_iff.1 hp
  obtain ⟨l, r, hsplit, herase⟩ :
      ∃ l r, s.arq = l ++ p :: r ∧ s'.arq = l ++ r := by
    refine ⟨s.arq.take i, s.arq.drop (i + 1), ?_, ?_⟩
    · rw [← hpi, ← List.drop_eq_getElem_cons hi, List.take_append_drop]
    · rw [h, List.eraseIdx_eq_take_drop_succ]
  refine ⟨(l.filter fun p => p.entry = e).map ArqPost.callback,
    (r.filter fun p => p.entry = e).map ArqPost.callback, ?_, ?_⟩
  · unfold GmState.inFlight
    rw [hsplit, List.filter_append, List.map_append, List.filter_cons]
    by_cases hpe : p.entry = e
    · simp [hpe]
    · simp [hpe]
  · unfold GmState.inFlight
    rw [herase, List.filter_append, List.map_append]

end Requests

end Games
end Cubiboot
