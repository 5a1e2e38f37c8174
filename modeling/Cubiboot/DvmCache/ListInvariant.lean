import Cubiboot.Foundations.LinkedSegment
import Cubiboot.DvmCache.Cache
import Mathlib.Data.List.Nodup
import Mathlib.Data.List.FinRange
import Mathlib.Data.List.Induction

/-!
# The list of cache entries

`ListOrder c order` says that the pointers of the cache link its entries in the
order `order`, most recently used first.  `ListInvariant` adds what the code
keeps about the base sectors: the unused entries come last, used ones hold
distinct page-aligned sectors.

Under it the three functions that follow pointers return: `dvm_cache_search`
finds the used page with the least base sector from the requested one on,
`dvm_cache_evict` takes the first unused entry or else the last one, and
`dvm_cache_promote` moves an entry to the front.

Results: `dvmCacheReset_spec` and `dvmCacheSearch_spec`; `Found.unique`, that there is
one page to be found at most; and `BestSoFar.keep` with `BestSoFar.found`, the steps by
which the search along the list comes to it.
-/

namespace Cubiboot
namespace Dvm

open LinkedSegment

variable {n : Nat}

/-- The pointers link the entries in this order. -/
structure ListOrder (c : DvmCache n) (order : List (Fin n)) : Prop where
  nodup : order.Nodup
  segment : Segment c.next c.prev none order none
  head : c.dvmListNext = order.head?
  tail : c.dvmListPrev = order.getLast?

/-- An entry that holds a page. -/
def DvmCache.Used (c : DvmCache n) (p : Fin n) : Prop :=
  c.baseSector p ≠ dvmEmptyPage

/-- The list invariant of the cache. -/
structure ListInvariant (c : DvmCache n) (order : List (Fin n)) : Prop where
  toListOrder : ListOrder c order
  complete : ∀ p, p ∈ order
  unusedLast : order.Pairwise fun p q => ¬ c.Used p → ¬ c.Used q
  distinct : ∀ p q, c.Used p → c.baseSector p = c.baseSector q → p = q
  aligned : ∀ p, c.Used p → c.baseSector p % dvmPageSectors = 0
  bounded : ∀ p, c.Used p → c.baseSector p < lbaRange

/-- Two caches that differ in their list pointers only. -/
structure SameContents (c c' : DvmCache n) : Prop where
  magic : c'.dvmMagic = c.dvmMagic
  data : c'.dvmCacheData = c.dvmCacheData
  base : c'.baseSector = c.baseSector
  owner : c'.dvmOwnerPdrv = c.dvmOwnerPdrv
  ready : c'.dvmReady = c.dvmReady
  disabled : c'.dvmDisabled = c.dvmDisabled

theorem SameContents.refl (c : DvmCache n) : SameContents c c :=
  ⟨rfl, rfl, rfl, rfl, rfl, rfl⟩

theorem SameContents.used_iff
    {c c' : DvmCache n} (h : SameContents c c') (p : Fin n) :
    c'.Used p ↔ c.Used p := by
  simp [DvmCache.Used, h.base]

/-- A list of all entries is as long as there are pages. -/
theorem ListOrder.length_eq
    {c : DvmCache n} {order : List (Fin n)} (h : ListOrder c order) (hall : ∀ p, p ∈ order) :
    order.length = n := by
  have hperm : order.Perm (List.finRange n) :=
    (List.perm_ext_iff_of_nodup h.nodup (List.nodup_finRange n)).2 fun p => by simp [hall p]
  simpa using hperm.length_eq

theorem ListInvariant.length_eq
    {c : DvmCache n} {order : List (Fin n)}
    (h : ListInvariant c order) :
    order.length = n :=
  h.toListOrder.length_eq h.complete

/--
What `dvm_cache_search` looks for: the used page with the least base sector
among those from `pageSector` on.
-/
def Found (c : DvmCache n) (pageSector : Nat) : Option (Fin n) → Prop
  | some q =>
      c.Used q ∧ pageSector ≤ c.baseSector q ∧
        ∀ p, c.Used p → pageSector ≤ c.baseSector p →
          c.baseSector q ≤ c.baseSector p
  | none => ∀ p, c.Used p → c.baseSector p < pageSector

/-- The best candidate among the entries already visited. -/
def BestSoFar
    (c : DvmCache n) (pageSector : Nat) (seen : List (Fin n)) :
    Nat → Option (Fin n) → Prop
  | minSec, some q =>
      minSec = c.baseSector q ∧ c.Used q ∧ pageSector < c.baseSector q ∧
        ∀ p ∈ seen, pageSector ≤ c.baseSector p → minSec ≤ c.baseSector p
  | minSec, none =>
      minSec = dvmEmptyPage ∧ ∀ p ∈ seen, c.baseSector p < pageSector

theorem BestSoFar.found
    {c : DvmCache n} {pageSector minSec : Nat} {seen : List (Fin n)}
    {ret : Option (Fin n)}
    (h : BestSoFar c pageSector seen minSec ret)
    (hall : ∀ p, c.Used p → p ∈ seen) :
    Found c pageSector ret := by
  cases ret with
  | none =>
      exact fun p hp => h.2 p (hall p hp)
  | some q =>
      obtain ⟨hmin, hq, hlt, hbest⟩ := h
      refine ⟨hq, hlt.le, fun p hp hle => ?_⟩
      have := hbest p (hall p hp) hle
      omega

/-- One visited entry more, when it improves on the candidate. -/
theorem BestSoFar.improve
    {c : DvmCache n} {pageSector minSec : Nat} {seen : List (Fin n)}
    {ret : Option (Fin n)} {p : Fin n}
    (h : BestSoFar c pageSector seen minSec ret)
    (hp : c.Used p)
    (hgt : c.baseSector p > pageSector)
    (hlt : c.baseSector p < minSec) :
    BestSoFar c pageSector (seen ++ [p]) (c.baseSector p) (some p) := by
  refine ⟨rfl, hp, hgt, fun q hq hle => ?_⟩
  rcases List.mem_append.1 hq with hq | hq
  · cases ret with
    | none =>
        have := h.2 q hq
        omega
    | some r =>
        have := h.2.2.2 q hq hle
        omega
  · rw [List.mem_singleton.1 hq]

/-- One visited entry more, when the candidate stands. -/
theorem BestSoFar.keep
    {c : DvmCache n} {pageSector minSec : Nat} {seen : List (Fin n)}
    {ret : Option (Fin n)} {p : Fin n}
    (h : BestSoFar c pageSector seen minSec ret)
    (hbound : c.baseSector p < dvmEmptyPage)
    (hne : c.baseSector p ≠ pageSector)
    (hno : ¬ (c.baseSector p > pageSector ∧ c.baseSector p < minSec)) :
    BestSoFar c pageSector (seen ++ [p]) minSec ret := by
  cases ret with
  | none =>
      obtain ⟨hmin, hseen⟩ := h
      refine ⟨hmin, fun q hq => ?_⟩
      rcases List.mem_append.1 hq with hq | hq
      · exact hseen q hq
      · rw [List.mem_singleton.1 hq]
        omega
  | some r =>
      obtain ⟨hmin, hr, hlt, hseen⟩ := h
      refine ⟨hmin, hr, hlt, fun q hq hle => ?_⟩
      rcases List.mem_append.1 hq with hq | hq
      · exact hseen q hq hle
      · rw [List.mem_singleton.1 hq] at hle ⊢
        omega

theorem ListInvariant.base_lt
    {c : DvmCache n} {order : List (Fin n)}
    (h : ListInvariant c order) {p : Fin n} (hp : c.Used p) :
    c.baseSector p < dvmEmptyPage := by
  have hb := h.bounded p hp
  have hne : c.baseSector p ≠ dvmEmptyPage := hp
  simp only [lbaRange, dvmEmptyPage] at hb hne ⊢
  omega

/-- The search loop, started at any suffix of the list. -/
theorem dvmCacheSearchLoop_spec
    {c : DvmCache n} {order : List (Fin n)}
    (h : ListInvariant c order) (pageSector : Nat)
    (seen rest : List (Fin n)) {fuel minSec : Nat} {ret : Option (Fin n)}
    (hsplit : order = seen ++ rest)
    (hseen : ∀ p ∈ seen, c.Used p)
    (hfuel : rest.length ≤ fuel)
    (hbest : BestSoFar c pageSector seen minSec ret) :
    ∃ p, dvmCacheSearchLoop c pageSector fuel rest.head? minSec ret = some p ∧
      Found c pageSector p := by
  induction rest generalizing seen fuel minSec ret with
  | nil =>
      refine ⟨ret, ?_, ?_⟩
      · cases fuel <;> rfl
      · refine hbest.found fun p _ => ?_
        simpa [hsplit] using h.complete p
  | cons x rest ih =>
      obtain ⟨fuel, rfl⟩ : ∃ k, fuel = k + 1 :=
        ⟨fuel - 1, by simp only [List.length_cons] at hfuel; omega⟩
      have hnext : c.next x = rest.head? := by
        have hseg := h.toListOrder.segment
        rw [hsplit] at hseg
        simpa using hseg.fields.2
      have hfuel' : rest.length ≤ fuel := by
        simp only [List.length_cons] at hfuel
        omega
      have hsplit' : order = (seen ++ [x]) ++ rest := by
        simp [hsplit]
      by_cases hempty : c.baseSector x = dvmEmptyPage
      · -- an unused entry: all used ones have been seen
        refine ⟨ret, by simp [dvmCacheSearchLoop, hempty], ?_⟩
        refine hbest.found fun p hp => ?_
        by_contra hnot
        have hpair := h.unusedLast
        rw [hsplit, List.pairwise_append] at hpair
        have hmem : p ∈ x :: rest := by
          have := h.complete p
          rw [hsplit] at this
          exact (List.mem_append.1 this).resolve_left hnot
        have hx : ¬ c.Used x := fun hu => hu hempty
        rcases List.mem_cons.1 hmem with rfl | hmem
        · exact hx hp
        · exact (List.pairwise_cons.1 hpair.2.1).1 p hmem hx hp
      · have hused : c.Used x := hempty
        have hseen' : ∀ p ∈ seen ++ [x], c.Used p := by
          intro p hp
          rcases List.mem_append.1 hp with hp | hp
          · exact hseen p hp
          · rw [List.mem_singleton.1 hp]
            exact hused
        simp only [List.head?_cons, dvmCacheSearchLoop, if_neg hempty]
        by_cases heq : c.baseSector x = pageSector
        · rw [if_pos heq]
          exact ⟨some x, rfl, hused, heq.ge, fun p _ hle => by omega⟩
        · rw [if_neg heq]
          by_cases hbetter : c.baseSector x > pageSector ∧ c.baseSector x < minSec
          · rw [if_pos hbetter, hnext]
            exact ih _ hsplit' hseen' hfuel' (hbest.improve hused hbetter.1 hbetter.2)
          · rw [if_neg hbetter, hnext]
            exact ih _ hsplit' hseen' hfuel'
              (hbest.keep (h.base_lt hused) heq hbetter)

/-- `dvm_cache_search` returns what it looks for. -/
theorem dvmCacheSearch_spec
    {c : DvmCache n} {order : List (Fin n)}
    (h : ListInvariant c order) (pageSector : Nat) :
    ∃ p, dvmCacheSearch c pageSector = some p ∧ Found c pageSector p := by
  unfold dvmCacheSearch
  rw [h.toListOrder.head]
  exact dvmCacheSearchLoop_spec h pageSector [] order rfl
    (by simp) h.length_eq.le ⟨rfl, by simp⟩

/-- There is only one entry to be found. -/
theorem Found.unique
    {c : DvmCache n} {order : List (Fin n)}
    (h : ListInvariant c order)
    {pageSector : Nat} {p q : Option (Fin n)}
    (hp : Found c pageSector p) (hq : Found c pageSector q) :
    p = q := by
  cases p with
  | none =>
      cases q with
      | none => rfl
      | some q =>
          have := hp q hq.1
          have := hq.2.1
          omega
  | some p =>
      cases q with
      | none =>
          have := hq p hp.1
          have := hp.2.1
          omega
      | some q =>
          have h₁ := hp.2.2 q hq.1 hq.2.1
          have h₂ := hq.2.2 p hp.1 hp.2.1
          rw [h.distinct p q hp.1 (by omega)]

/-- Splitting the list of all entries at entry `x` puts `x` many before it. -/
theorem length_of_finRange_split
    {u v : List (Fin n)} {x : Fin n}
    (h : List.finRange n = u ++ x :: v) :
    u.length = x.val := by
  have hget : (List.finRange n)[u.length]? = some x := by
    rw [h]
    simp
  obtain ⟨hlt, heq⟩ := List.getElem?_eq_some_iff.1 hget
  simpa using congrArg Fin.val heq

theorem getElem?_finRange (i : Nat) :
    (List.finRange n)[i]? = dvmEntryAt i := by
  unfold dvmEntryAt
  split
  · rename_i hi
    simp [hi]
  · rename_i hi
    simp [hi]

/-- `dvm_cache_reset` links the entries in the order of the array. -/
theorem dvmCacheReset_spec
    (c : DvmCache n) :
    ListInvariant (dvmCacheReset c) (List.finRange n) := by
  have hunused : ∀ p, ¬ (dvmCacheReset c).Used p := fun p hp => hp rfl
  refine
    { toListOrder := ⟨List.nodup_finRange n, ?_, ?_, ?_⟩
      complete := List.mem_finRange
      unusedLast := ?_
      distinct := fun p _ hp => absurd hp (hunused p)
      aligned := fun p hp => absurd hp (hunused p)
      bounded := fun p hp => absurd hp (hunused p) }
  · refine segment_of_fields fun u x v hl => ?_
    have hu := length_of_finRange_split hl
    constructor
    · show (if x.val = 0 then none else dvmEntryAt (x.val - 1)) = _
      by_cases hx : x.val = 0
      · rw [if_pos hx, List.length_eq_zero_iff.1 (hu.trans hx)]
        rfl
      · have hlast : u.getLast? = u[u.length - 1]? :=
          List.getLast?_eq_getElem?
        rw [if_neg hx, hlast, hu, ← getElem?_finRange, hl, Option.or_none,
          List.getElem?_append_left (by omega)]
    · show dvmEntryAt (x.val + 1) = _
      rw [← getElem?_finRange, hl, Option.or_none,
        List.getElem?_append_right (by omega), List.head?_eq_getElem?]
      have : x.val + 1 - u.length = 0 + 1 := by omega
      rw [this, List.getElem?_cons_succ]
  · show dvmEntryAt 0 = _
    rw [← getElem?_finRange, List.head?_eq_getElem?]
  · show dvmEntryAt (n - 1) = _
    rw [← getElem?_finRange, List.getLast?_eq_getElem?, List.length_finRange]
  · exact List.pairwise_of_forall fun p q _ => hunused q

/-- Taking an entry that is not the first one out of the list. -/
theorem detachEntry_spec
    {c : DvmCache n} {pre post : List (Fin n)} {p before : Fin n}
    (h : ListOrder c (pre ++ p :: post))
    (hbefore : pre.getLast? = some before) :
    ListOrder (detachEntry c p before) (pre ++ post) ∧
      SameContents c (detachEntry c p before) := by
  obtain ⟨hprevp, hnextp⟩ := h.segment.fields
  simp only [Option.or_none] at hprevp hnextp
  have hnd' : (p :: (pre ++ post)).Nodup :=
    (List.perm_middle.nodup_iff).1 h.nodup
  obtain ⟨hp, hrest⟩ := List.nodup_cons.1 hnd'
  have hbp : p ≠ before := by
    rintro rfl
    exact hp (List.mem_append_left _ (List.mem_of_getLast? hbefore))
  have hhead : c.dvmListNext = (pre ++ post).head? := by
    rw [h.head]
    cases pre with
    | nil => simp at hbefore
    | cons x pre => simp
  have hnextp' : Function.update c.next before (c.next p) p = post.head? := by
    rw [Function.update_of_ne hbp, hnextp]
  cases hpost : post.head? with
  | none =>
      have hdetach :
          detachEntry c p before =
            { c with
              next := Function.update c.next before (c.next p)
              dvmListPrev := c.prev p } := by
        simp only [detachEntry, hnextp', hpost]
      rw [hdetach]
      refine ⟨⟨hrest, ?_, hhead, ?_⟩, ⟨rfl, rfl, rfl, rfl, rfl, rfl⟩⟩
      · refine h.segment.unlink h.nodup ?_ ?_ ?_ ?_
        · intro y _ hy
          have hyb : y ≠ before := by
            rintro rfl
            exact hy hbefore
          exact Function.update_of_ne hyb _ _
        · intro y _ _
          rfl
        · intro y hy
          rw [hbefore, Option.some.injEq] at hy
          rw [← hy]
          exact (Function.update_self ..).trans hnextp
        · intro y hy
          rw [hpost] at hy
          cases hy
      · rw [List.head?_eq_none_iff.1 hpost, List.append_nil]
        exact hprevp
  | some after =>
      have hdetach :
          detachEntry c p before =
            { c with
              next := Function.update c.next before (c.next p)
              prev := Function.update c.prev after (c.prev p) } := by
        simp only [detachEntry, hnextp', hpost]
      rw [hdetach]
      refine ⟨⟨hrest, ?_, hhead, ?_⟩, ⟨rfl, rfl, rfl, rfl, rfl, rfl⟩⟩
      · refine h.segment.unlink h.nodup ?_ ?_ ?_ ?_
        · intro y _ hy
          have hyb : y ≠ before := by
            rintro rfl
            exact hy hbefore
          exact Function.update_of_ne hyb _ _
        · intro y _ hy
          have hya : y ≠ after := by
            rintro rfl
            exact hy hpost
          exact Function.update_of_ne hya _ _
        · intro y hy
          rw [hbefore, Option.some.injEq] at hy
          rw [← hy]
          exact (Function.update_self ..).trans hnextp
        · intro y hy
          rw [hpost, Option.some.injEq] at hy
          rw [← hy]
          exact (Function.update_self ..).trans hprevp
      · show c.dvmListPrev = (pre ++ post).getLast?
        have hne : post ≠ [] := by
          rintro rfl
          simp at hpost
        rw [h.tail, List.getLast?_append_of_ne_nil pre hne,
          List.getLast?_append_of_ne_nil pre (by simp),
          List.getLast?_cons_of_ne_nil hne]

/-- Linking an entry in at the front of a list that is not empty. -/
theorem attachFront_spec
    {c : DvmCache n} {order : List (Fin n)} {p : Fin n}
    (h : ListOrder c order) (hne : order ≠ []) (hp : p ∉ order) :
    ∃ c', attachFront c p = some c' ∧
      ListOrder c' (p :: order) ∧ SameContents c c' := by
  cases order with
  | nil => exact absurd rfl hne
  | cons first order =>
      have hfirst : c.dvmListNext = some first := by
        rw [h.head]
        simp
      have hfp : first ≠ p := by
        rintro rfl
        exact hp (by simp)
      refine
        ⟨{ c with
            next := Function.update c.next p (some first)
            prev :=
              Function.update (Function.update c.prev first (some p)) p none
            dvmListNext := some p }, ?_, ?_, ⟨rfl, rfl, rfl, rfl, rfl, rfl⟩⟩
      · simp [attachFront, hfirst]
      · refine ⟨List.nodup_cons.2 ⟨hp, h.nodup⟩, ?_, rfl, ?_⟩
        · have hseg :
              Segment c.next c.prev none ([] ++ first :: order) none :=
            h.segment
          have hlinked :
              Segment (Function.update c.next p (some first))
                (Function.update (Function.update c.prev first (some p)) p none)
                none ([] ++ p :: first :: order) none := by
            refine hseg.link h.nodup ?_ ?_ ?_ ?_ ?_ ?_
            · intro y hy _
              rw [Function.update_of_ne]
              rintro rfl
              exact hp hy
            · intro y hy hy'
              rw [Function.update_of_ne, Function.update_of_ne]
              · rintro rfl
                exact hy' rfl
              · rintro rfl
                exact hp hy
            · intro y hy
              simp at hy
            · intro y hy
              simp only [List.head?_cons, Option.some.injEq] at hy
              rw [← hy, Function.update_of_ne hfp, Function.update_self]
            · simp
            · simp
          exact hlinked
        · show c.dvmListPrev = (p :: first :: order).getLast?
          rw [h.tail, List.getLast?_cons_cons]

/-- `dvm_cache_promote` moves an entry of the list to its front. -/
theorem dvmCachePromote_spec
    {c : DvmCache n} {pre post : List (Fin n)} {p : Fin n}
    (h : ListOrder c (pre ++ p :: post)) :
    ∃ c', dvmCachePromote c p = some c' ∧
      ListOrder c' (p :: (pre ++ post)) ∧ SameContents c c' := by
  have hnd' : (p :: (pre ++ post)).Nodup :=
    (List.perm_middle.nodup_iff).1 h.nodup
  have hp : p ∉ pre ++ post := (List.nodup_cons.1 hnd').1
  cases pre with
  | nil =>
      -- already at the front
      refine ⟨c, ?_, by simpa using h, SameContents.refl c⟩
      simp [dvmCachePromote, h.head]
  | cons first pre =>
      obtain ⟨before, hbefore⟩ :
          ∃ before, (first :: pre).getLast? = some before :=
        ⟨_, List.getLast?_eq_some_getLast (by simp)⟩
      have hprevp : c.prev p = some before := by
        have := h.segment.fields.1
        simpa only [Option.or_none, hbefore] using this
      have hfront : c.dvmListNext ≠ some p := by
        rw [h.head]
        intro heq
        simp only [List.cons_append, List.head?_cons, Option.some.injEq] at heq
        exact hp (by simp [heq])
      obtain ⟨hdetach, hsame⟩ := detachEntry_spec h hbefore
      obtain ⟨c', hattach, horder, hsame'⟩ :=
        attachFront_spec hdetach (by simp) hp
      refine ⟨c', ?_, horder, ?_⟩
      · simp only [dvmCachePromote, if_neg hfront, hprevp]
        exact hattach
      · exact
          ⟨hsame'.magic.trans hsame.magic, hsame'.data.trans hsame.data,
            hsame'.base.trans hsame.base, hsame'.owner.trans hsame.owner,
            hsame'.ready.trans hsame.ready,
            hsame'.disabled.trans hsame.disabled⟩

/--
The walk of `dvm_cache_evict` through the unused entries, from the last one
back to the first one.
-/
theorem dvmCacheEvictLoop_spec
    {c : DvmCache n} {used unused : List (Fin n)} {p : Fin n} {fuel : Nat}
    {after : List (Fin n)}
    (hseg : Segment c.next c.prev none (used ++ unused ++ p :: after) none)
    (hused : ∀ q ∈ used, c.Used q)
    (hunused : ∀ q ∈ unused, ¬ c.Used q)
    (hp : ¬ c.Used p)
    (hfuel : unused.length < fuel) :
    ∃ q rest, dvmCacheEvictLoop c fuel p = some q ∧
      unused ++ p :: after = q :: rest := by
  have hempty : ∀ q, ¬ c.Used q → c.baseSector q = dvmEmptyPage := fun q hq => by
    simpa [DvmCache.Used] using hq
  induction unused using List.reverseRecOn generalizing p fuel after with
  | nil =>
      obtain ⟨fuel, rfl⟩ : ∃ k, fuel = k + 1 := ⟨fuel - 1, by omega⟩
      refine ⟨p, after, ?_, rfl⟩
      have hprev : c.prev p = used.getLast? := by
        have := hseg.fields.1
        simpa using this
      rw [dvmCacheEvictLoop, if_pos (hempty p hp), hprev]
      cases hlast : used.getLast? with
      | none => rfl
      | some before =>
          have hb : c.Used before := hused before (List.mem_of_getLast? hlast)
          exact if_neg hb
  | append_singleton unused before ih =>
      obtain ⟨fuel, rfl⟩ : ∃ k, fuel = k + 1 := ⟨fuel - 1, by omega⟩
      have hprev : c.prev p = some before := by
        have := hseg.fields.1
        simpa using this
      have hb : ¬ c.Used before := hunused before (by simp)
      have hseg' :
          Segment c.next c.prev none
            (used ++ unused ++ before :: (p :: after)) none := by
        simpa using hseg
      have hfuel' : unused.length < fuel := by
        simp only [List.length_append, List.length_singleton] at hfuel
        omega
      obtain ⟨q, rest, hloop, hsplit⟩ :=
        ih hseg' (fun q hq => hunused q (by simp [hq])) hb hfuel'
      refine ⟨q, rest, ?_, by simpa using hsplit⟩
      rw [dvmCacheEvictLoop, if_pos (hempty p hp), hprev]
      show (if c.baseSector before = dvmEmptyPage then
        dvmCacheEvictLoop c fuel before else some p) = some q
      rw [if_pos (hempty before hb), hloop]

/-- Used entries first, then the unused ones. -/
theorem ListInvariant.split_used
    {c : DvmCache n} {order : List (Fin n)}
    (h : ListInvariant c order) :
    ∃ used unused, order = used ++ unused ∧
      (∀ p ∈ used, c.Used p) ∧ (∀ p ∈ unused, ¬ c.Used p) := by
  have hpair := h.unusedLast
  clear h
  induction order with
  | nil => exact ⟨[], [], rfl, by simp, by simp⟩
  | cons x order ih =>
      obtain ⟨hx, hpair⟩ := List.pairwise_cons.1 hpair
      by_cases hu : c.Used x
      · obtain ⟨used, unused, rfl, h₁, h₂⟩ := ih hpair
        refine ⟨x :: used, unused, rfl, ?_, h₂⟩
        intro p hp
        rcases List.mem_cons.1 hp with rfl | hp
        · exact hu
        · exact h₁ p hp
      · refine ⟨[], x :: order, rfl, by simp, ?_⟩
        intro p hp
        rcases List.mem_cons.1 hp with rfl | hp
        · exact hu
        · exact hx p hp hu

/--
`dvm_cache_evict` returns the first unused entry, or the last entry when all
are used.  A used entry is returned when there is none after it only.
-/
theorem dvmCacheEvict_spec
    {c : DvmCache n} {order : List (Fin n)}
    (h : ListInvariant c order) (hn : 0 < n) :
    ∃ p pre post, dvmCacheEvict c = some p ∧
      order = pre ++ p :: post ∧
      (∀ q ∈ pre, c.Used q) ∧ (∀ q ∈ post, ¬ c.Used q) ∧ (c.Used p → post = []) := by
  obtain ⟨used, unused, hsplit, hused, hunused⟩ := h.split_used
  have hlen := h.length_eq
  have htail := h.toListOrder.tail
  have hseg := h.toListOrder.segment
  induction unused using List.reverseRecOn with
  | nil =>
      rw [List.append_nil] at hsplit
      subst hsplit
      obtain ⟨pre, p, rfl⟩ :=
        List.eq_nil_or_concat order |>.resolve_left (by rintro rfl; simp at hlen; omega)
      refine ⟨p, pre, [], ?_, by simp, fun q hq => hused q (by simp [hq]), by simp,
        fun _ => rfl⟩
      have hp : c.Used p := hused p (by simp)
      obtain ⟨k, rfl⟩ : ∃ k, n = k + 1 := ⟨n - 1, by omega⟩
      simp only [dvmCacheEvict, htail, List.concat_eq_append, List.getLast?_append_cons,
        List.getLast?_singleton]
      exact if_neg hp
  | append_singleton unused p _ =>
      have hlast : order.getLast? = some p := by
        rw [hsplit]
        simp
      have hsegp :
          Segment c.next c.prev none (used ++ unused ++ p :: []) none := by
        rw [hsplit] at hseg
        simpa using hseg
      have hfuel : unused.length < n := by
        have := congrArg List.length hsplit
        simp only [List.length_append, List.length_singleton] at this
        omega
      obtain ⟨q, rest, hloop, hq⟩ :=
        dvmCacheEvictLoop_spec hsegp hused
          (fun r hr => hunused r (by simp [hr])) (hunused p (by simp)) hfuel
      refine ⟨q, used, rest, ?_, ?_, hused, ?_, fun huse => ?_⟩
      · simp only [dvmCacheEvict, htail, hlast]
        exact hloop
      · rw [hsplit, ← hq]
      · intro r hr
        refine hunused r ?_
        rw [hq]
        exact List.mem_cons_of_mem q hr
      · exact absurd huse (hunused q (hq ▸ List.mem_cons_self))

end Dvm
end Cubiboot
