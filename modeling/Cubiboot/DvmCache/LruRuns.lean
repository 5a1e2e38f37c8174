import Cubiboot.DvmCache.Replacement
import Cubiboot.DvmCache.Transparency

/-!
# The pages over a run of requests

A request returns whatever the drive answers, and leaves the pages that a list of least
recently used pages is left with by it.  So does a sequence of requests of one drive,
each of which finds the pages that the one before it left.

Results: `DriveRequest.leaves`, the pages after one request; `served_requests`, that a
sequence of them returns; `LruRun.perm`, that straight requests keep the set of pages;
`dvm_cache_is_lru`, the pages after any sequence; and `refused_write_keeps_order`, a
write that the drive refuses, which does not count as a use of its page.
-/

namespace Cubiboot
namespace Dvm

open FuelLoop LruList

variable {n : Nat}

/-- A call of `dvm_cache_read` or `dvm_cache_write`. -/
structure DriveRequest where
  isWrite : Bool
  buff : UserBuffer
  sector : Nat
  count : Nat

/-- What it asks of `dvm_cache_access`. -/
def DriveRequest.access (rq : DriveRequest) (pdrv : Nat) : AccessRequest where
  pdrv := pdrv
  origFirst := rq.sector
  origCount := rq.count
  isAligned := dvmIsAligned rq.buff.addr
  isWrite := rq.isWrite

/-- The call, on a drive. -/
def DriveRequest.run
    (rq : DriveRequest) (fuel pdrv : Nat) (s : System n) : Option (AccessResult n) :=
  if rq.isWrite then
    dvmCacheWrite fuel s.cache s.storage pdrv rq.buff rq.sector rq.count
  else
    dvmCacheRead fuel s.cache s.storage pdrv rq.buff rq.sector rq.count

/-- A request and what the drive answers to its raw accesses. -/
structure Exchange where
  request : DriveRequest
  answer : Nat → Bool

/-- A run of requests of one drive. -/
inductive Served (pdrv : Nat) : System n → List Exchange → System n → Prop
  | nil {s : System n} : Served pdrv s [] s
  | cons {s s' : System n} {rq : DriveRequest} {trace : List Exchange}
      {fuel : Nat} {r : AccessResult n}
      (hr : rq.run fuel pdrv s = some r)
      (rest : Served pdrv ⟨r.cache, r.storage⟩ trace s') :
      Served pdrv s (⟨rq, rawAnswer s.storage pdrv rq.isWrite⟩ :: trace) s'

/-- The same run of a list of least recently used pages. -/
inductive LruRun (capacity pdrv : Nat) : List Exchange → List Nat → List Nat → Prop
  | nil {pages : List Nat} : LruRun capacity pdrv [] pages pages
  | cons {e : Exchange} {trace : List Exchange} {pages mid pages' : List Nat}
      (serves : LruServes capacity (e.request.access pdrv).isCached e.request.isWrite
        e.answer e.request.sector e.request.count pages mid)
      (rest : LruRun capacity pdrv trace mid pages') :
      LruRun capacity pdrv (e :: trace) pages pages'

section Claim

variable {c : DvmCache n} {pdrv : Nat}

/-- A cache that is set up for a drive is what a claim for that drive leaves. -/
theorem dvmCacheClaim_owned
    (hready : c.dvmReady = true) (hmagic : c.dvmMagic = dvmMagicValue)
    (howner : c.dvmOwnerPdrv = pdrv) :
    dvmCacheClaim c pdrv = c := by
  rw [dvmCacheClaim, if_neg]
  rintro (h | h | h)
  · exact h hmagic
  · exact Bool.false_ne_true (h.symm.trans hready)
  · exact h howner.symm

theorem dvmCacheClaim_sameFlags {c' : DvmCache n} (h : SameFlags (dvmCacheClaim c pdrv) c') :
    dvmCacheClaim c' pdrv = c' := by
  obtain ⟨hready, hmagic, howner, _⟩ := dvmCacheClaim_flags c pdrv
  exact dvmCacheClaim_owned (h.ready.trans hready) (h.magic.trans hmagic)
    (h.owner.trans howner)

/-- A claim of a cache that is not set up finds no page. -/
theorem caches_claim_of_not_ready (h : c.dvmReady = false) :
    Caches (dvmCacheClaim c pdrv) [] := by
  have hreset := caches_reset { c with dvmOwnerPdrv := pdrv }
  rw [dvmCacheClaim, if_pos (Or.inr (Or.inl h))]
  exact hreset

end Claim

section Requests

variable {s s' : System n} {pdrv : Nat} {rq : DriveRequest} {pages : List Nat}

theorem DriveRequest.steady_run (rq : DriveRequest) (pdrv : Nat) (s : System n) :
    Steady fun fuel => rq.run fuel pdrv s := by
  cases hw : rq.isWrite with
  | true =>
      simp only [DriveRequest.run, hw, if_true, dvmCacheWrite]
      exact .ite (steady_const _) (.ite (steady_const _) (FuelLoop.steady_run _))
  | false =>
      simp only [DriveRequest.run, hw, Bool.false_eq_true, if_false, dvmCacheRead]
      exact .ite (steady_const _) (.ite (steady_const _) (FuelLoop.steady_run _))

/-- A request of no sectors does nothing. -/
theorem DriveRequest.run_empty
    (hcount : rq.count = 0) (fuel pdrv : Nat) (s : System n) :
    ∃ r, rq.run fuel pdrv s = some r ∧ r.cache = s.cache := by
  cases hw : rq.isWrite with
  | true =>
      simp only [DriveRequest.run, hw, if_true, dvmCacheWrite, if_pos hcount]
      exact ⟨_, rfl, rfl⟩
  | false =>
      simp only [DriveRequest.run, hw, Bool.false_eq_true, if_false, dvmCacheRead,
        if_pos hcount]
      exact ⟨_, rfl, rfl⟩

/-- A request of a cache that is disabled leaves it alone. -/
theorem DriveRequest.run_disabled
    (rq : DriveRequest) (hdisabled : s.cache.dvmDisabled = true) {fuel : Nat}
    {r : AccessResult n} (hr : rq.run fuel pdrv s = some r) : r.cache = s.cache := by
  cases hw : rq.isWrite with
  | true =>
      simp only [DriveRequest.run, hw, if_true, dvmCacheWrite, if_pos hdisabled] at hr
      split at hr
      · cases hr
        rfl
      · cases hr
        rfl
  | false =>
      simp only [DriveRequest.run, hw, Bool.false_eq_true, if_false, dvmCacheRead,
        if_pos hdisabled] at hr
      split at hr
      · cases hr
        rfl
      · cases hr
        rfl

/-- A request of an enabled cache claims it. -/
theorem DriveRequest.run_enabled
    (henabled : s.cache.dvmDisabled = false) (hcount : rq.count ≠ 0) (fuel : Nat) :
    rq.run fuel pdrv s =
      dvmCacheAccess fuel (rq.access pdrv) (dvmCacheClaim s.cache pdrv) s.storage
        rq.buff.data := by
  have hdisabled : ¬ s.cache.dvmDisabled = true := by
    rw [henabled]
    exact Bool.false_ne_true
  cases hw : rq.isWrite with
  | true =>
      simp only [DriveRequest.run, DriveRequest.access, hw, if_true, dvmCacheWrite,
        if_neg hcount, if_neg hdisabled]
  | false =>
      simp only [DriveRequest.run, DriveRequest.access, hw, Bool.false_eq_true, if_false,
        dvmCacheRead, if_neg hcount, if_neg hdisabled]

/-- What a request finds and leaves in the cache. -/
structure Leaves
    (pdrv : Nat) (s : System n) (rq : DriveRequest) (pages : List Nat) (r : AccessResult n)
    (pages' : List Nat) : Prop where
  enabled : r.cache.dvmDisabled = false
  caches : Caches (dvmCacheClaim r.cache pdrv) pages'
  serves : LruServes n (rq.access pdrv).isCached rq.isWrite
    (rawAnswer s.storage pdrv rq.isWrite) rq.sector rq.count pages pages'

/-- A request returns, and leaves the pages that it should. -/
theorem DriveRequest.run_leaves
    (hn : 0 < n) (henabled : s.cache.dvmDisabled = false)
    (hc : Caches (dvmCacheClaim s.cache pdrv) pages)
    (hpages : ∀ page ∈ pages, page < uintRange) (hrange : rq.sector + rq.count ≤ uintRange) :
    ∃ fuel, ∃ r : AccessResult n, rq.run fuel pdrv s = some r ∧
      ∃ pages', Leaves pdrv s rq pages r pages' := by
  by_cases hcount : rq.count = 0
  · obtain ⟨r, hr, hcache⟩ := rq.run_empty hcount 0 pdrv s
    refine ⟨0, r, hr, pages, ?_, ?_, ?_⟩
    · rw [hcache]
      exact henabled
    · rw [hcache]
      exact hc
    · rw [hcount]
      exact .done
  · have haccess : (rq.access pdrv).origFirst + (rq.access pdrv).origCount ≤ uintRange :=
      hrange
    obtain ⟨fuel, r, hr, pages', hcaches, hflags, hserves⟩ :=
      dvmCacheAccess_replaces hc (hc.below_iff.2 hpages) haccess (Nat.le_refl _) hn s.storage
        rq.buff.data
    refine ⟨fuel, r, ?_, pages', ?_, ?_, hserves⟩
    · rw [DriveRequest.run_enabled henabled hcount]
      exact hr
    · obtain ⟨_, _, _, hdisabled⟩ := dvmCacheClaim_flags s.cache pdrv
      exact (hflags.disabled.trans hdisabled).trans henabled
    · rw [dvmCacheClaim_sameFlags hflags]
      exact hcaches

/-- So does every result of it. -/
theorem DriveRequest.leaves
    (hn : 0 < n) (henabled : s.cache.dvmDisabled = false)
    (hc : Caches (dvmCacheClaim s.cache pdrv) pages)
    (hpages : ∀ page ∈ pages, page < uintRange) (hrange : rq.sector + rq.count ≤ uintRange)
    {fuel : Nat} {r : AccessResult n} (hr : rq.run fuel pdrv s = some r) :
    ∃ pages', Leaves pdrv s rq pages r pages' := by
  obtain ⟨fuel', r', hr', hleaves⟩ := DriveRequest.run_leaves hn henabled hc hpages hrange
  obtain rfl := (rq.steady_run pdrv s).unique hr hr'
  exact hleaves

theorem Leaves.below {r : AccessResult n} {pages' : List Nat}
    (h : Leaves pdrv s rq pages r pages') (hpages : ∀ page ∈ pages, page < uintRange)
    (hrange : rq.sector + rq.count ≤ uintRange) : ∀ page ∈ pages', page < uintRange := by
  intro page hpage
  rcases h.serves.mem hpage with hold | hnew
  · exact hpages page hold
  · exact lt_of_lt_of_le hnew hrange

end Requests

section Traces

variable {s s' : System n} {pdrv capacity : Nat} {pages pages' : List Nat}
variable {trace : List Exchange}

/-- Every sequence of requests is served. -/
theorem served_requests (hn : 0 < n) (requests : List DriveRequest)
    (henabled : s.cache.dvmDisabled = false)
    (hc : Caches (dvmCacheClaim s.cache pdrv) pages)
    (hpages : ∀ page ∈ pages, page < uintRange)
    (hrange : ∀ rq ∈ requests, rq.sector + rq.count ≤ uintRange) :
    ∃ trace s', trace.map Exchange.request = requests ∧ Served pdrv s trace s' := by
  induction requests generalizing s pages with
  | nil => exact ⟨[], s, rfl, .nil⟩
  | cons rq requests ih =>
      have hrq := hrange rq List.mem_cons_self
      obtain ⟨fuel, r, hr, mid, hleaves⟩ := rq.run_leaves hn henabled hc hpages hrq
      obtain ⟨trace, s', htrace, hserved⟩ :=
        ih (s := ⟨r.cache, r.storage⟩) hleaves.enabled hleaves.caches
          (hleaves.below hpages hrq) fun rq' hrq' => hrange rq' (List.mem_cons_of_mem _ hrq')
      exact ⟨⟨rq, rawAnswer s.storage pdrv rq.isWrite⟩ :: trace, s',
        congrArg (rq :: ·) htrace, .cons hr hserved⟩

/-- And a run leaves the pages that the same run of a list of pages leaves. -/
theorem Served.refines (hn : 0 < n) (h : Served pdrv s trace s')
    (henabled : s.cache.dvmDisabled = false)
    (hc : Caches (dvmCacheClaim s.cache pdrv) pages)
    (hpages : ∀ page ∈ pages, page < uintRange)
    (hrange : ∀ e ∈ trace, e.request.sector + e.request.count ≤ uintRange) :
    ∃ pages', Caches (dvmCacheClaim s'.cache pdrv) pages' ∧
      LruRun n pdrv trace pages pages' := by
  induction h generalizing pages with
  | nil => exact ⟨pages, hc, .nil⟩
  | @cons s _ rq _ _ _ hr _ ih =>
      have hrq : rq.sector + rq.count ≤ uintRange := hrange ⟨rq, _⟩ List.mem_cons_self
      obtain ⟨mid, hleaves⟩ := rq.leaves hn henabled hc hpages hrq hr
      obtain ⟨pages', hcaches, hrun⟩ := ih hleaves.enabled hleaves.caches
        (hleaves.below hpages hrq) fun e he => hrange e (List.mem_cons_of_mem _ he)
      exact ⟨pages', hcaches, .cons hleaves.serves hrun⟩

/-- A write, or an aligned read that is as long as a page. -/
def DriveRequest.IsStraight (rq : DriveRequest) : Prop :=
  rq.isWrite = true ∨ dvmPageSectors ≤ rq.count ∧ dvmIsAligned rq.buff.addr = true

theorem DriveRequest.IsStraight.not_cached {rq : DriveRequest} (h : rq.IsStraight) :
    (rq.access pdrv).isCached = false := by
  rw [AccessRequest.isCached, DriveRequest.access]
  rcases h with hwrite | ⟨hlong, haligned⟩
  · rw [hwrite]
    rfl
  · rw [AccessRequest.isPartial, decide_eq_false (Nat.not_lt.2 hlong), haligned]
    exact Bool.and_false _

/-- Requests that do not go through the cache keep its pages. -/
theorem LruRun.perm (h : LruRun capacity pdrv trace pages pages')
    (hstraight : ∀ e ∈ trace, e.request.IsStraight) : pages'.Perm pages := by
  induction h with
  | nil => exact List.Perm.refl _
  | @cons e trace pages mid pages' serves _ ih =>
      have hmid := serves.perm (hstraight e List.mem_cons_self).not_cached
      exact (ih fun e' he' => hstraight e' (List.mem_cons_of_mem _ he')).trans hmid

/--
Whatever the drive answers, requests that end below `uintRange` return, and leave the
pages, in their order, that a list of least recently used pages is left with.  Writes, and
aligned reads that are as long as a page, add none and remove none.
-/
theorem dvm_cache_is_lru
    (hn : 0 < n) (henabled : s.cache.dvmDisabled = false)
    (hc : Caches (dvmCacheClaim s.cache pdrv) pages)
    (hpages : ∀ page ∈ pages, page < uintRange) (requests : List DriveRequest)
    (hrange : ∀ rq ∈ requests, rq.sector + rq.count ≤ uintRange) :
    (∃ trace s', trace.map Exchange.request = requests ∧ Served pdrv s trace s') ∧
      ∀ trace s', trace.map Exchange.request = requests → Served pdrv s trace s' →
        ∃ pages', Caches (dvmCacheClaim s'.cache pdrv) pages' ∧
          LruRun n pdrv trace pages pages' ∧ pages'.Nodup ∧ pages'.length ≤ n ∧
          ((∀ rq ∈ requests, rq.IsStraight) → pages'.Perm pages) := by
  refine ⟨served_requests hn requests henabled hc hpages hrange, ?_⟩
  rintro trace s' rfl hserved
  obtain ⟨pages', hcaches, hrun⟩ := hserved.refines hn henabled hc hpages fun e he =>
    hrange e.request (List.mem_map_of_mem he)
  exact ⟨pages', hcaches, hrun, hcaches.nodup, hcaches.length_le, fun hstraight =>
    hrun.perm fun e he => hstraight e.request (List.mem_map_of_mem he)⟩

/-- Two pages are read, the first of them again, and then a third one. -/
def thirdPageRequests : List DriveRequest :=
  [⟨false, .filled 0, 0, 1⟩, ⟨false, .filled 0, 4, 1⟩, ⟨false, .filled 0, 0, 1⟩,
    ⟨false, .filled 0, 8, 1⟩]

/-- In a cache of two pages the third one takes the place of the second one. -/
theorem dvm_cache_is_lru_third_page :
    ∃ (trace : List Exchange) (s' : System 2) (pages : List Nat),
      trace.map Exchange.request = thirdPageRequests ∧
      Served 0 ⟨.atBoot 2, .blank true⟩ trace s' ∧ Caches (dvmCacheClaim s'.cache 0) pages ∧
      LruRun 2 0 trace [] pages ∧ 0 ∈ pages ∧ 8 ∈ pages ∧ 4 ∉ pages := by
  obtain ⟨r₁, r₂, r₃, r, hr₁, hr₂, hr₃, hr, hclaim, hfirst, hsecond⟩ :
      ∃ r₁ r₂ r₃ r : AccessResult 2,
        (⟨false, .filled 0, 0, 1⟩ : DriveRequest).run 4 0 ⟨.atBoot 2, .blank true⟩ = some r₁ ∧
        (⟨false, .filled 0, 4, 1⟩ : DriveRequest).run 4 0 ⟨r₁.cache, r₁.storage⟩ = some r₂ ∧
        (⟨false, .filled 0, 0, 1⟩ : DriveRequest).run 4 0 ⟨r₂.cache, r₂.storage⟩ = some r₃ ∧
        (⟨false, .filled 0, 8, 1⟩ : DriveRequest).run 4 0 ⟨r₃.cache, r₃.storage⟩ = some r ∧
        dvmCacheClaim r.cache 0 = r.cache ∧ r.cache.baseSector 0 = 0 ∧
        r.cache.baseSector 1 = 8 :=
    ⟨_, _, _, _, rfl, rfl, rfl, rfl, rfl, rfl, rfl⟩
  have hserved : Served 0 ⟨.atBoot 2, .blank true⟩ _ ⟨r.cache, r.storage⟩ :=
    .cons hr₁ (.cons hr₂ (.cons hr₃ (.cons hr .nil)))
  obtain ⟨pages, hcaches, hrun, -⟩ := (dvm_cache_is_lru (by decide) rfl
    (caches_claim_of_not_ready rfl) (fun _ hpage => absurd hpage List.not_mem_nil)
    thirdPageRequests (by decide)).2 _ _ rfl hserved
  refine ⟨_, _, pages, rfl, hserved, hcaches, hrun, ?_⟩
  simp only [hclaim] at hcaches
  simp only [hcaches.mem_iff, DvmCache.Used, Fin.exists_fin_two, hfirst, hsecond]
  decide

end Traces

/-- The entry at the front of the list has the page that was used last. -/
theorem Caches.head {c : DvmCache n} {p : Fin n} {pages : List Nat} (h : Caches c pages)
    (hp : c.dvmListNext = some p) (hused : c.Used p) : pages.head? = some (c.baseSector p) := by
  obtain ⟨order, hlist, rfl⟩ := h
  have hhead : order.head? = some p := hlist.toListOrder.head.symm.trans hp
  obtain ⟨rest, rfl⟩ : ∃ rest, order = p :: rest := by
    cases order with
    | nil => cases hhead
    | cons q rest =>
        obtain rfl := Option.some.inj hhead
        exact ⟨rest, rfl⟩
  rw [pagesOf_cons_used hused]
  rfl

/--
Two pages have been read, and a write of one sector to the older one is refused: the
page does not move to the front.
-/
theorem refused_write_keeps_order :
    ∃ (s : System 32) (r : AccessResult 32) (pages : List Nat),
      (∃ trace, Served 0 ⟨.atBoot 32, .blank false⟩ trace s) ∧
      Caches (dvmCacheClaim s.cache 0) pages ∧
      pageOf 0 ∈ pages ∧ ¬ WholePage 0 1 ∧
      (⟨true, .filled 1, 0, 1⟩ : DriveRequest).run 4 0 s = some r ∧
      ¬ Caches (dvmCacheClaim r.cache 0) (touch (pageOf 0) pages) := by
  obtain ⟨r₁, r₂, r, hr₁, hr₂, hr, hclaim₂, hbase₂, hclaim, hnext, hbase⟩ :
      ∃ r₁ r₂ r : AccessResult 32,
        (⟨false, .filled 0, 0, 1⟩ : DriveRequest).run 4 0 ⟨.atBoot 32, .blank false⟩ =
          some r₁ ∧
        (⟨false, .filled 0, 4, 1⟩ : DriveRequest).run 4 0 ⟨r₁.cache, r₁.storage⟩ = some r₂ ∧
        (⟨true, .filled 1, 0, 1⟩ : DriveRequest).run 4 0 ⟨r₂.cache, r₂.storage⟩ = some r ∧
        dvmCacheClaim r₂.cache 0 = r₂.cache ∧ r₂.cache.baseSector 0 = 0 ∧
        dvmCacheClaim r.cache 0 = r.cache ∧ r.cache.dvmListNext = some 1 ∧
        r.cache.baseSector 1 = 4 :=
    ⟨_, _, _, rfl, rfl, rfl, rfl, rfl, rfl, rfl, rfl⟩
  have hserved : Served 0 ⟨.atBoot 32, .blank false⟩ _ ⟨r₂.cache, r₂.storage⟩ :=
    .cons hr₁ (.cons hr₂ .nil)
  obtain ⟨pages, hcaches, _⟩ := hserved.refines (by decide) rfl
    (caches_claim_of_not_ready rfl) (fun _ hpage => absurd hpage List.not_mem_nil) (by
      intro e he
      rcases List.mem_cons.1 he with rfl | he
      · decide
      · rw [List.mem_singleton.1 he]
        show 4 + 1 ≤ uintRange
        decide)
  refine ⟨⟨r₂.cache, r₂.storage⟩, r, pages, ⟨_, hserved⟩, hcaches, ?_, by decide, hr, ?_⟩
  · rw [hclaim₂] at hcaches
    refine hcaches.mem_iff.2 ⟨0, ?_, hbase₂⟩
    rw [DvmCache.Used, hbase₂]
    decide
  · intro htouched
    rw [hclaim] at htouched
    have hhead := htouched.head hnext (by
      rw [DvmCache.Used, hbase]
      decide)
    rw [hbase] at hhead
    exact absurd (Option.some.inj hhead) (by decide)

end Dvm
end Cubiboot
