import Cubiboot.DvmCache.Transparency

/-!
# When a request finishes

A request on which every iteration makes progress finishes.  An iteration that reads
through the cache fills a page and then hits it.  One that goes straight to the device
moves on by the distance to the next cached page, which the source cuts to a `UINT`:
when that page is a multiple of `2 ^ 32` sectors away, the iteration moves on by
nothing, and so does the next one.

The sector number may wrap in a request, and the page found before it does is not
searched for again.

Results: `StraightInv.step` and `CachedInv.step`, the progress of one iteration;
`dvm_cache_access_finishes_iff`, exactly which requests finish.
-/

namespace Cubiboot
namespace Dvm

open CopyRange FuelLoop LinkedSegment

variable {n : Nat}

/-- The list can be followed: all entries are linked in some order. -/
def Walkable (c : DvmCache n) : Prop :=
  ∃ order, ListOrder c order ∧ ∀ p, p ∈ order

theorem ListInvariant.walkable
    {c : DvmCache n} {order : List (Fin n)} (h : ListInvariant c order) : Walkable c :=
  ⟨order, h.toListOrder, h.complete⟩

/-- What is cached does not matter. -/
theorem Walkable.withPages
    {c : DvmCache n} (h : Walkable c) (base : Fin n → Nat) (d : Fin n → Nat → SectorData) :
    Walkable { c with baseSector := base, dvmCacheData := d } := by
  obtain ⟨order, horder, hall⟩ := h
  exact ⟨order, ⟨horder.nodup, horder.segment, horder.head, horder.tail⟩, hall⟩

theorem ListOrder.searchLoop
    {c : DvmCache n} {order : List (Fin n)} (h : ListOrder c order) (pageSector : Nat)
    (seen rest : List (Fin n)) (hsplit : order = seen ++ rest)
    {fuel : Nat} (hfuel : rest.length ≤ fuel) (minSec : Nat) (ret : Option (Fin n)) :
    ∃ p, dvmCacheSearchLoop c pageSector fuel rest.head? minSec ret = some p := by
  induction rest generalizing seen fuel minSec ret with
  | nil =>
      refine ⟨ret, ?_⟩
      cases fuel <;> rfl
  | cons x rest ih =>
      obtain ⟨fuel, rfl⟩ : ∃ k, fuel = k + 1 :=
        ⟨fuel - 1, by simp only [List.length_cons] at hfuel; omega⟩
      have hnext : c.next x = rest.head? := by
        have hseg := h.segment
        rw [hsplit] at hseg
        simpa using hseg.fields.2
      have hfuel' : rest.length ≤ fuel := by
        simp only [List.length_cons] at hfuel
        omega
      have hsplit' : order = (seen ++ [x]) ++ rest := by
        simp [hsplit]
      simp only [List.head?_cons, dvmCacheSearchLoop, hnext]
      split
      · exact ⟨_, rfl⟩
      · split
        · exact ⟨_, rfl⟩
        · split
          · exact ih _ hsplit' hfuel' _ _
          · exact ih _ hsplit' hfuel' _ _

theorem Walkable.search
    {c : DvmCache n} (h : Walkable c) (pageSector : Nat) :
    ∃ p, dvmCacheSearch c pageSector = some p := by
  obtain ⟨order, horder, hall⟩ := h
  rw [dvmCacheSearch, horder.head]
  exact horder.searchLoop pageSector [] order rfl (horder.length_eq hall).le _ _

theorem ListOrder.evictLoop
    {c : DvmCache n} {order : List (Fin n)} (h : ListOrder c order)
    (pre post : List (Fin n)) (p : Fin n) (hsplit : order = pre ++ p :: post)
    {fuel : Nat} (hfuel : pre.length < fuel) :
    ∃ q, dvmCacheEvictLoop c fuel p = some q := by
  induction pre using List.reverseRecOn generalizing p post fuel with
  | nil =>
      obtain ⟨fuel, rfl⟩ : ∃ k, fuel = k + 1 := ⟨fuel - 1, by omega⟩
      have hprev : c.prev p = none := by
        have hseg := h.segment
        rw [hsplit] at hseg
        simpa using hseg.fields.1
      simp only [dvmCacheEvictLoop, hprev]
      split
      · exact ⟨_, rfl⟩
      · exact ⟨_, rfl⟩
  | append_singleton pre before ih =>
      obtain ⟨fuel, rfl⟩ : ∃ k, fuel = k + 1 := ⟨fuel - 1, by omega⟩
      have hprev : c.prev p = some before := by
        have hseg := h.segment
        rw [hsplit] at hseg
        simpa using hseg.fields.1
      have hfuel' : pre.length < fuel := by
        simp only [List.length_append, List.length_singleton] at hfuel
        omega
      simp only [dvmCacheEvictLoop, hprev]
      split
      · split
        · exact ih (p :: post) before (by simp [hsplit]) hfuel'
        · exact ⟨_, rfl⟩
      · exact ⟨_, rfl⟩

theorem Walkable.evict
    {c : DvmCache n} (h : Walkable c) (hn : 0 < n) : ∃ p, dvmCacheEvict c = some p := by
  obtain ⟨order, horder, hall⟩ := h
  have hne : order ≠ [] := List.ne_nil_of_mem (hall ⟨0, hn⟩)
  obtain ⟨pre, p, rfl⟩ := (List.eq_nil_or_concat order).resolve_left hne
  rw [List.concat_eq_append] at horder
  have hlast : c.dvmListPrev = some p := by
    rw [horder.tail]
    simp
  have hlength := horder.length_eq (by simpa using hall)
  simp only [List.length_append, List.length_singleton] at hlength
  simp only [dvmCacheEvict, hlast]
  exact horder.evictLoop pre [] p rfl (by omega)

theorem Walkable.promote
    {c : DvmCache n} (h : Walkable c) (p : Fin n) :
    ∃ c', dvmCachePromote c p = some c' ∧ Walkable c' ∧ SameContents c c' := by
  obtain ⟨order, horder, hall⟩ := h
  obtain ⟨pre, post, rfl⟩ := List.append_of_mem (hall p)
  obtain ⟨c', hpromote, horder', hsame⟩ := dvmCachePromote_spec horder
  refine ⟨c', hpromote, ⟨_, horder', fun q => ?_⟩, hsame⟩
  have := hall q
  simpa [or_left_comm] using this

/-- The request reads pages into the cache. -/
def AccessRequest.isCached (rq : AccessRequest) : Bool :=
  !rq.isWrite && (rq.isPartial || !rq.isAligned)

/-- The page of an iteration has been filled, and is what the next one finds. -/
structure FilledPage (s s' : AccessState n) : Prop where
  page : ∃ q, s'.p = some q ∧ s'.cache.baseSector q = s'.curPageSector
  found : s'.curPageSector < s'.searchBase
  first : s'.firstSector = s.firstSector
  num : s'.numSectors = s.numSectors

/-- The iteration is the last one, moves on, or fills a page that the next one hits. -/
inductive Progresses (rq : AccessRequest) (s : AccessState n) : Prop
  | returns (r : AccessResult n) (step : accessLoop rq s = some (.inr r))
  | moves (s' : AccessState n) (step : accessLoop rq s = some (.inl s'))
      (fewer : s'.numSectors < s.numSectors)
  | fills (s' s'' : AccessState n) (step : accessLoop rq s = some (.inl s'))
      (filled : FilledPage s s') (hit : accessLoop rq s' = some (.inl s''))
      (fewer : s''.numSectors < s'.numSectors)

/-- From here every iteration makes progress, and the request comes to its end. -/
structure Finishes (rq : AccessRequest) (s : AccessState n) : Prop where
  progress : ∀ s', Relation.ReflTransGen
      (fun s s' => accessLoop rq s = some (.inl s')) s s' → Progresses rq s'
  result : ∃ fuel r, run (accessLoop rq) fuel s = some r

variable {rq : AccessRequest} {s s' : AccessState n}

/-- Progress in all states that are reached is enough. -/
theorem finishes_of_progress
    (Inv : AccessState n → Prop)
    (hnext : ∀ s s', Inv s → accessLoop rq s = some (.inl s') → Inv s')
    (hprogress : ∀ s, Inv s → Progresses rq s) (hs : Inv s) :
    Finishes rq s := by
  constructor
  · intro s' hrun
    refine hprogress s' ?_
    induction hrun with
    | refl => exact hs
    | tail _ hstep ih => exact hnext _ _ ih hstep
  · obtain ⟨num, hnum⟩ : ∃ num, s.numSectors = num := ⟨_, rfl⟩
    induction num using Nat.strong_induction_on generalizing s with
    | h num ih =>
        cases hprogress s hs with
        | returns r hstep =>
            exact ⟨1, r, by rw [run, hstep]⟩
        | moves s' hstep hfewer =>
            obtain ⟨fuel, r, hr⟩ := ih _ (hnum ▸ hfewer) (hnext _ _ hs hstep) rfl
            exact ⟨fuel + 1, r, by rw [run, hstep]; exact hr⟩
        | fills s' s'' hstep hfilled hhit hfewer =>
            have hs' := hnext _ _ hs hstep
            rw [hfilled.num, hnum] at hfewer
            obtain ⟨fuel, r, hr⟩ := ih _ hfewer (hnext _ _ hs' hhit) rfl
            exact ⟨fuel + 2, r, by rw [run, hstep]; simp only [run, hhit, hr]⟩

theorem Walkable.lookup (h : Walkable s.cache) :
    ∃ p searchBase, s.lookup = some { s with p := p, searchBase := searchBase } := by
  by_cases hdue : s.curPageSector ≥ s.searchBase
  · obtain ⟨p, hsearch⟩ := h.search s.curPageSector
    rw [AccessState.lookup, if_pos hdue, hsearch]
    exact ⟨_, _, rfl⟩
  · rw [AccessState.lookup, if_neg hdue]
    exact ⟨_, _, rfl⟩

theorem accessLoop_eq
    (hpos : 0 < s.numSectors) {s₁ : AccessState n} (hlookup : s.lookup = some s₁) :
    accessLoop rq s = accessBranch rq s₁ := by
  rw [accessLoop, if_neg (by omega), accessStep, hlookup, Option.bind_some]

theorem accessMiss_cached (h : rq.isCached = true) : accessMiss rq s = accessFill rq s :=
  if_pos h

theorem accessMiss_straight (h : rq.isCached = false) : accessMiss rq s = accessDirect rq s :=
  if_neg fun hcached => Bool.false_ne_true (h.symm.trans hcached)

theorem accessLoop_end (h : ¬ 0 < s.numSectors) :
    accessLoop rq s = some (.inr ⟨.resOk, s.buffer, s.cache, s.storage⟩) :=
  if_pos (by omega)

theorem Walkable.promoteHit (h : Walkable s.cache) (q : Fin n) :
    ∃ c', s.promoteHit q = some { s with cache := c' } ∧ Walkable c' := by
  by_cases hwhole : s.isWhole = true
  · exact ⟨s.cache, if_pos hwhole, h⟩
  · obtain ⟨c', hpromote, hw, -⟩ := h.promote q
    refine ⟨c', ?_, hw⟩
    rw [AccessState.promoteHit, if_neg hwhole, hpromote]
    rfl

/-- A hit of a read moves on. -/
theorem accessHit_moves
    (h : Walkable s.cache) (hread : rq.isWrite = false) (q : Fin n) :
    ∃ s', accessHit rq s q = some (.inl s') ∧ Walkable s'.cache ∧
      s'.numSectors = s.numSectors - s.curSectors ∧ s'.firstSector < lbaRange := by
  have hlt : (s.firstSector + s.curSectors) % lbaRange < lbaRange :=
    Nat.mod_lt _ (by decide)
  obtain ⟨buffer, hbuffer⟩ : ∃ b, b =
      copyRange s.buffer s.done s.curSectors
        (fun i => s.cache.dvmCacheData q (s.curPageOffset + i)) := ⟨_, rfl⟩
  have hw : Walkable { s with buffer := buffer }.cache := h
  obtain ⟨c', hpromote, hw'⟩ := hw.promoteHit q
  refine ⟨{ s with buffer := buffer, cache := c' }.advance s.curSectors, ?_, hw', rfl, hlt⟩
  simp only [accessHit, hread, Bool.false_eq_true, if_false, ← hbuffer, hpromote,
    Option.map_some]

/-- A page is filled, or the request ends with the drive's answer. -/
theorem accessFill_fills
    (rq : AccessRequest) (h : Walkable s.cache) (hn : 0 < n) (hfirst : s.firstSector < lbaRange) :
    (∃ r, accessFill rq s = some (.inr r)) ∨
      ∃ s', accessFill rq s = some (.inl s') ∧ Walkable s'.cache ∧ FilledPage s s' := by
  obtain ⟨p, hevict⟩ := h.evict hn
  simp only [accessFill, hevict]
  split
  · exact Or.inl ⟨_, rfl⟩
  · right
    obtain ⟨r, hr⟩ : ∃ r, r = diskReadRaw s.storage rq.pdrv (s.cache.dvmCacheData p) 0
        s.curPageSector dvmPageSectors := ⟨_, rfl⟩
    rw [← hr]
    obtain ⟨c', hpromote, hw, hsame⟩ :=
      (h.withPages (Function.update s.cache.baseSector p s.curPageSector)
        (Function.update s.cache.dvmCacheData p r.buff)).promote p
    rw [hpromote]
    refine ⟨_, rfl, hw, ⟨p, rfl, ?_⟩, ?_, rfl, rfl⟩
    · show c'.baseSector p = _
      rw [hsame.base]
      exact Function.update_self ..
    · show s.curPageSector < (s.curPageSector + 1) % lbaRange
      have haligned := s.curPage_aligned
      have hoff := s.curPage_add_offset
      rw [Nat.mod_eq_of_lt]
      · exact Nat.lt_succ_self _
      · simp only [lbaRange, dvmPageSectors] at *
        omega

/-- A page that was filled is hit. -/
theorem FilledPage.hit
    (h : FilledPage s s') (hw : Walkable s'.cache) (hread : rq.isWrite = false)
    (hpos : 0 < s.numSectors) :
    ∃ s'', accessLoop rq s' = some (.inl s'') ∧ s''.numSectors < s'.numSectors := by
  have hpos' : 0 < s'.numSectors := by
    rw [h.num]
    exact hpos
  obtain ⟨q, hq, hbase⟩ := h.page
  have hlookup : s'.lookup = some s' := if_neg (Nat.not_le.2 h.found)
  obtain ⟨s'', hhit, -, hnum, -⟩ := accessHit_moves hw hread q
  refine ⟨s'', ?_, ?_⟩
  · rw [accessLoop_eq hpos' hlookup]
    simp only [accessBranch, hq, if_pos hbase]
    exact hhit
  · have := s'.curSectors_pos hpos'
    omega

/-- What holds between two iterations of a request that goes through the cache. -/
structure CachedInv (s : AccessState n) : Prop where
  list : Walkable s.cache
  first : s.firstSector < lbaRange

theorem CachedInv.step
    (h : CachedInv s) (hcached : rq.isCached = true) (hn : 0 < n) :
    Progresses rq s ∧ ∀ s', accessLoop rq s = some (.inl s') → CachedInv s' := by
  have hread : rq.isWrite = false := by
    simp only [AccessRequest.isCached, Bool.and_eq_true, Bool.not_eq_true'] at hcached
    exact hcached.1
  by_cases hpos : 0 < s.numSectors
  · obtain ⟨p, searchBase, hlookup⟩ := h.list.lookup
    obtain ⟨s₁, hs₁⟩ : ∃ s₁, s₁ = { s with p := p, searchBase := searchBase } := ⟨_, rfl⟩
    have hnum : s₁.numSectors = s.numSectors := by
      rw [hs₁]
    have hw : Walkable s₁.cache := by
      rw [hs₁]
      exact h.list
    have hfirst : s₁.firstSector < lbaRange := by
      rw [hs₁]
      exact h.first
    rw [← hs₁] at hlookup
    have hloop : accessLoop rq s = accessBranch rq s₁ := accessLoop_eq hpos hlookup
    rcases accessBranch_cases rq s₁ with ⟨q, hq, hbase, hbranch⟩ | ⟨_, hbranch⟩
    · obtain ⟨s', hstep, hw', hless, hlt⟩ := accessHit_moves hw hread q
      have hbranch : accessLoop rq s = some (.inl s') := hloop.trans (hbranch.trans hstep)
      have := s₁.curSectors_pos (by omega)
      refine ⟨.moves s' hbranch (by omega), fun s'' hstep' => ?_⟩
      rw [hbranch] at hstep'
      cases hstep'
      exact ⟨hw', hlt⟩
    · have hbranch : accessLoop rq s = accessFill rq s₁ :=
        hloop.trans (hbranch.trans (accessMiss_cached hcached))
      rcases accessFill_fills rq hw hn hfirst with ⟨r, hr⟩ | ⟨s', hs', hw', hfilled⟩
      · rw [hr] at hbranch
        refine ⟨.returns r hbranch, fun s' hstep' => ?_⟩
        rw [hbranch] at hstep'
        cases hstep'
      · rw [hs'] at hbranch
        have hfilled' : FilledPage s s' :=
          ⟨hfilled.page, hfilled.found, by rw [hfilled.first, hs₁], by rw [hfilled.num, hs₁]⟩
        obtain ⟨s'', hnext, hless⟩ := hfilled'.hit hw' hread hpos
        refine ⟨.fills s' s'' hbranch hfilled' hnext hless, fun s₂ hstep' => ?_⟩
        rw [hbranch] at hstep'
        cases hstep'
        refine ⟨hw', ?_⟩
        rw [hfilled.first]
        exact hfirst
  · refine ⟨.returns _ (accessLoop_end hpos), fun s' hstep => ?_⟩
    rw [accessLoop_end hpos] at hstep
    cases hstep

/-- The first cached page from sector `y` on starts later, by a multiple of what a `UINT`
holds. -/
def StalledAt (c : DvmCache n) (y : Nat) : Prop :=
  ∃ q, c.Used q ∧ y < c.baseSector q ∧ (c.baseSector q - y) % uintRange = 0 ∧
    ∀ r, c.Used r → y ≤ c.baseSector r → c.baseSector q ≤ c.baseSector r

/--
The request comes to nothing after `d` sectors: before its sector number wraps, at a sector
that is stalled; after that, as far below `2 ^ 32` as the last page is below `2 ^ 64`, when
that page is cached.
-/
def StallOffset (c : DvmCache n) (rq : AccessRequest) (d : Nat) : Prop :=
  rq.origFirst + d < lbaRange ∧ StalledAt c (rq.origFirst + d) ∨
    (∃ q, c.baseSector q = lbaRange - dvmPageSectors) ∧
      rq.origFirst + d = lbaRange + (uintRange - dvmPageSectors)

/-- The request goes straight to the device, and comes to nothing before its end. -/
def Stalls (c : DvmCache n) (rq : AccessRequest) : Prop :=
  rq.isCached = false ∧ ∃ d < rq.origCount, StallOffset c rq d

/-- Every raw access of the drive succeeds. -/
structure Healthy (st : Storage) : Prop where
  reads : ∀ k, st.readOutcome k = .delivered
  writes : ∀ k, st.writeOutcome k = true

/-- The request has moved on by `k` sectors. -/
structure Moved (s s' : AccessState n) (k : Nat) : Prop where
  list : ∃ order, ListInvariant s'.cache order
  base : s'.cache.baseSector = s.cache.baseSector
  p : s'.p = s.p
  searchBase : s'.searchBase = s.searchBase
  first : s'.firstSector = (s.firstSector + k) % lbaRange
  num : s'.numSectors = s.numSectors - k
  done : s'.done = s.done + k
  healthy : Healthy s.storage → Healthy s'.storage

/-- A raw read changes no outcome. -/
theorem diskReadRaw_healthy
    {st : Storage} (h : Healthy st) (pdrv : Nat) (buff : Nat → SectorData)
    (place sector count : Nat) :
    Healthy (diskReadRaw st pdrv buff place sector count).storage := by
  unfold diskReadRaw
  split
  · split
    · exact ⟨h.reads, h.writes⟩
    · exact ⟨h.reads, h.writes⟩
  · exact h

theorem diskReadRaw_delivers
    {st : Storage} (h : Healthy st) {pdrv : Nat} (hknown : diskIsKnown pdrv = true)
    (buff : Nat → SectorData) (place sector count : Nat) :
    (diskReadRaw st pdrv buff place sector count).res = .resOk := by
  rw [diskReadRaw, if_pos hknown, h.reads]

/-- A raw write changes no outcome. -/
theorem diskWriteRaw_healthy
    {st : Storage} (h : Healthy st) (pdrv : Nat) (buff : Nat → SectorData)
    (place sector count : Nat) :
    Healthy (diskWriteRaw st pdrv buff place sector count).storage := by
  unfold diskWriteRaw
  split
  · split
    · exact ⟨h.reads, h.writes⟩
    · exact ⟨h.reads, h.writes⟩
  · exact h

theorem diskWriteRaw_accepts
    {st : Storage} (h : Healthy st) {pdrv : Nat} (hknown : diskIsKnown pdrv = true)
    (buff : Nat → SectorData) (place sector count : Nat) :
    (diskWriteRaw st pdrv buff place sector count).res = .resOk := by
  rw [diskWriteRaw, if_pos hknown, if_pos (h.writes _)]

/-- A direct transfer moves on by what it transfers, or the drive has failed. -/
theorem accessDirect_moves
    (rq : AccessRequest) (h : ∃ order, ListInvariant s.cache order) :
    (∃ s', accessDirect rq s = some (.inl s') ∧ s'.cache = s.cache ∧
        Moved s s' s.directSectors) ∨
      ∃ r, accessDirect rq s = some (.inr r) ∧ r.cache = s.cache ∧
        (diskIsKnown rq.pdrv = true → ¬ Healthy s.storage) := by
  cases hw : rq.isWrite with
  | true =>
      simp only [accessDirect, hw, if_true]
      split
      · rename_i hres
        exact Or.inr ⟨_, rfl, rfl, fun hknown hh =>
          hres (diskWriteRaw_accepts hh hknown _ _ _ _)⟩
      · exact Or.inl ⟨_, rfl, rfl, h, rfl, rfl, rfl, rfl, rfl, rfl,
          fun hh => diskWriteRaw_healthy hh _ _ _ _ _⟩
  | false =>
      simp only [accessDirect, hw, Bool.false_eq_true, if_false]
      split
      · rename_i hres
        exact Or.inr ⟨_, rfl, rfl, fun hknown hh =>
          hres (diskReadRaw_delivers hh hknown _ _ _ _)⟩
      · exact Or.inl ⟨_, rfl, rfl, h, rfl, rfl, rfl, rfl, rfl, rfl,
          fun hh => diskReadRaw_healthy hh _ _ _ _ _⟩

/-- A hit moves on by what it covers of the page, or the drive has failed. -/
theorem accessHit_moved
    (rq : AccessRequest) (h : ∃ order, ListInvariant s.cache order)
    {q : Fin n} (hq : s.cache.Used q) :
    (∃ s', accessHit rq s q = some (.inl s') ∧ Moved s s' s.curSectors) ∨
      ∃ r, accessHit rq s q = some (.inr r) ∧ (∃ order, ListInvariant r.cache order) ∧
        (diskIsKnown rq.pdrv = true → ¬ Healthy s.storage) := by
  obtain ⟨order, hlist⟩ := h
  cases hw : rq.isWrite with
  | true =>
      obtain ⟨d, hd⟩ : ∃ d, d = Function.update s.cache.dvmCacheData q
          (copyRange (s.cache.dvmCacheData q) s.curPageOffset s.curSectors
            (fun i => s.buffer (s.done + i))) := ⟨_, rfl⟩
      obtain ⟨w, hwrite⟩ : ∃ w, w = diskWriteRaw s.storage rq.pdrv s.buffer s.done
          s.firstSector s.curSectors := ⟨_, rfl⟩
      have heq : accessHit rq s q =
          if w.res ≠ .resOk then
            some (.inr ⟨.resError, s.buffer, { s.cache with dvmCacheData := d }, w.storage⟩)
          else
            ({ s with
                cache := { s.cache with dvmCacheData := d }
                storage := w.storage }.promoteHit q).map
              fun s' : AccessState n => .inl (s'.advance s.curSectors) := by
        rw [accessHit, if_pos hw, hd, hwrite]
      have hlist₁ : ListInvariant { s.cache with dvmCacheData := d } order :=
        hlist.withPages d s.cache.dvmMagic
      by_cases hok : w.res = .resOk
      · left
        have hlist₂ : ListInvariant
            { s with
              cache := { s.cache with dvmCacheData := d }, storage := w.storage }.cache order :=
          hlist₁
        obtain ⟨c', order', hpromote, hlist', hsame⟩ := promoteHit_spec hlist₂ hq
        rw [heq, if_neg (not_not.2 hok), hpromote]
        refine ⟨_, rfl, ⟨order', hlist'⟩, hsame.base, rfl, rfl, rfl, rfl, rfl, fun hh => ?_⟩
        rw [hwrite]
        exact diskWriteRaw_healthy hh _ _ _ _ _
      · refine Or.inr ⟨_, by rw [heq, if_pos hok], ⟨order, hlist₁⟩, fun hknown hh => hok ?_⟩
        rw [hwrite]
        exact diskWriteRaw_accepts hh hknown _ _ _ _
  | false =>
      left
      obtain ⟨buffer, hbuffer⟩ : ∃ b, b =
          copyRange s.buffer s.done s.curSectors
            (fun i => s.cache.dvmCacheData q (s.curPageOffset + i)) := ⟨_, rfl⟩
      have hlist₁ : ListInvariant { s with buffer := buffer }.cache order := hlist
      obtain ⟨c', order', hpromote, hlist', hsame⟩ := promoteHit_spec hlist₁ hq
      refine ⟨{ s with buffer := buffer, cache := c' }.advance s.curSectors, ?_,
        ⟨order', hlist'⟩, hsame.base, rfl, rfl, rfl, rfl, rfl, fun hh => hh⟩
      simp only [accessHit, hw, Bool.false_eq_true, if_false, ← hbuffer, hpromote,
        Option.map_some]

/-- Where a request that goes straight to the device stands. -/
inductive Stands (rq : AccessRequest) (s : AccessState n) : Prop
  | inside
      (first : s.firstSector = rq.origFirst + s.done) (bound : s.firstSector < lbaRange)
      (search : SearchOk s)
  | wrapped
      (first : s.firstSector + lbaRange = rq.origFirst + s.done)
      (page : ∃ q, s.p = some q ∧ s.cache.baseSector q = lbaRange - dvmPageSectors)
      (search : s.searchBase = lbaRange - dvmPageSectors + 1)

/-- What holds between two iterations of such a request. -/
structure StraightInv (c₀ : DvmCache n) (rq : AccessRequest) (s : AccessState n) : Prop where
  list : ∃ order, ListInvariant s.cache order
  base : s.cache.baseSector = c₀.baseSector
  count : s.done + s.numSectors = rq.origCount
  stands : 0 < s.numSectors → Stands rq s

/-- An iteration moves on by `k` sectors: by some, unless it is stalled, and never beyond a
place where the request stalls. -/
structure Reach (c₀ : DvmCache n) (rq : AccessRequest) (s : AccessState n) (k : Nat) :
    Prop where
  le : k ≤ s.numSectors
  progress : 0 < k ∨ StallOffset c₀ rq s.done
  before : ∀ d, s.done ≤ d → d < rq.origCount → StallOffset c₀ rq d → s.done + k ≤ d

variable {c₀ : DvmCache n}

theorem used_congr (hbase : s.cache.baseSector = c₀.baseSector) (q : Fin n) :
    c₀.Used q ↔ s.cache.Used q := by
  simp only [DvmCache.Used, hbase]

/-- A hit reaches no stalled sector. -/
theorem reach_of_hit
    (hlist : ∃ order, ListInvariant s.cache order)
    (hbase : s.cache.baseSector = c₀.baseSector)
    (hfirst : s.firstSector = rq.origFirst + s.done) (hbound : s.firstSector < lbaRange)
    (hpos : 0 < s.numSectors) {q : Fin n} (hused : s.cache.Used q)
    (hhit : s.cache.baseSector q = s.curPageSector) :
    Reach c₀ rq s s.curSectors := by
  obtain ⟨order, hlist⟩ := hlist
  obtain ⟨hend, hle⟩ := s.curSectors_le
  have hoff := s.curPage_add_offset
  have haligned := s.curPage_aligned
  refine ⟨hle, Or.inl (s.curSectors_pos hpos), fun d hd hcount hstall => ?_⟩
  rcases hstall with ⟨-, r, hr, hlater, hmultiple, hleast⟩ | ⟨-, hwrap⟩
  · -- the stalled sector starts a page, which is not the one that is hit
    have hqr := hleast q ((used_congr hbase q).2 hused)
    have hra := hlist.aligned r ((used_congr hbase r).1 hr)
    rw [← hbase] at hqr hlater hmultiple
    simp only [dvmPageSectors, uintRange] at *
    omega
  · simp only [dvmPageSectors, lbaRange, uintRange] at *
    omega

/-- A direct transfer before the wrap reaches no stalled sector, and is empty at one only. -/
theorem reach_of_direct
    (hlist : ∃ order, ListInvariant s.cache order)
    (hbase : s.cache.baseSector = c₀.baseSector)
    (hfirst : s.firstSector = rq.origFirst + s.done) (hbound : s.firstSector < lbaRange)
    (hcount : s.done + s.numSectors = rq.origCount) (hrange : rq.origCount < uintRange)
    (hpos : 0 < s.numSectors) (hl : LookedUp s)
    (hmiss : ∀ q, s.p = some q → s.cache.baseSector q ≠ s.curPageSector) :
    Reach c₀ rq s s.directSectors := by
  obtain ⟨order, hlist⟩ := hlist
  obtain ⟨hle, hnext, hall⟩ := directSectors_le hlist hl hmiss
  have hoff := s.curPage_add_offset
  have hcur := s.curPage_aligned
  have hfound := hl.1
  cases hp : s.p with
  | none =>
      rw [hp] at hfound
      have hk := hall hp
      refine ⟨hle, Or.inl (by omega), fun d hd hlt hstall => ?_⟩
      -- all cached pages lie before the page of this iteration
      exfalso
      rcases hstall with ⟨-, r, hr, hlater, -, -⟩ | ⟨⟨r, hr⟩, -⟩
      · have := hfound r ((used_congr hbase r).1 hr)
        rw [hbase] at this
        omega
      · have hused : s.cache.Used r := by
          rw [← hbase] at hr
          unfold DvmCache.Used
          rw [hr]
          decide
        have := hfound r hused
        rw [hbase, hr] at this
        simp only [lbaRange, dvmPageSectors] at *
        omega
  | some q =>
      rw [hp] at hfound
      obtain ⟨hused, hfrom, hleast⟩ := hfound
      have hlater := hl.first_lt_next hlist hp (hmiss q hp)
      have hq := hlist.bounded q hused
      have hdist : (s.cache.baseSector q + lbaRange - s.firstSector) % lbaRange =
          s.cache.baseSector q - s.firstSector := by
        simp only [lbaRange] at hq ⊢
        omega
      have hk : s.directSectors =
          min s.numSectors ((s.cache.baseSector q - s.firstSector) % uintRange) := by
        simp only [AccessState.directSectors, hp, hdist]
      refine ⟨hle, ?_, fun d hd hlt hstall => ?_⟩
      · by_cases hzero : (s.cache.baseSector q - s.firstSector) % uintRange = 0
        · right
          left
          rw [← hfirst]
          refine ⟨hbound, q, (used_congr hbase q).2 hused, ?_, ?_, fun r hr hfr => ?_⟩
          · rw [← hbase]
            exact hlater
          · rw [← hbase]
            exact hzero
          · rw [← hbase] at hfr ⊢
            exact hleast r ((used_congr hbase r).1 hr) (by omega)
        · left
          rw [hk]
          omega
      · have hto := hnext q hp
        rcases hstall with ⟨-, r, hr, hrlater, hmultiple, hrleast⟩ | ⟨-, hwrap⟩
        · rw [← hbase] at hrlater hmultiple
          by_cases hbeyond : s.cache.baseSector q ≤ rq.origFirst + d
          · omega
          · have hqr := hrleast q ((used_congr hbase q).2 hused)
              (by rw [← hbase]; omega)
            have hrq := hleast r ((used_congr hbase r).1 hr) (by omega)
            rw [← hbase] at hqr
            have hsame : s.cache.baseSector r = s.cache.baseSector q := by
              omega
            rw [hsame] at hmultiple
            have hrest : (s.cache.baseSector q - s.firstSector) % uintRange = d - s.done := by
              simp only [uintRange] at hmultiple hrange ⊢
              omega
            rw [hk, hrest]
            omega
        · simp only [lbaRange, dvmPageSectors, uintRange] at *
          omega

/-- The same after the wrap. -/
theorem reach_of_wrapped
    (hbase : s.cache.baseSector = c₀.baseSector)
    (hfirst : s.firstSector + lbaRange = rq.origFirst + s.done)
    (hstart : rq.origFirst < lbaRange)
    (hcount : s.done + s.numSectors = rq.origCount) (hrange : rq.origCount < uintRange)
    (hpos : 0 < s.numSectors) {q : Fin n} (hp : s.p = some q)
    (hq : s.cache.baseSector q = lbaRange - dvmPageSectors) :
    Reach c₀ rq s s.directSectors := by
  have hsmall : s.firstSector < uintRange := by
    omega
  have hk : s.directSectors =
      min s.numSectors ((2 * uintRange - dvmPageSectors - s.firstSector) % uintRange) := by
    simp only [AccessState.directSectors, hp, hq]
    congr 1
    simp only [lbaRange, dvmPageSectors, uintRange] at *
    omega
  refine ⟨by rw [hk]; exact min_le_left _ _, ?_, fun d hd hlt hstall => ?_⟩
  · by_cases hend : s.firstSector = uintRange - dvmPageSectors
    · right
      right
      refine ⟨⟨q, by rw [← hbase]; exact hq⟩, ?_⟩
      omega
    · left
      rw [hk]
      simp only [dvmPageSectors, uintRange] at *
      omega
  · rcases hstall with ⟨hinside, -⟩ | ⟨-, hwrap⟩
    · omega
    · rw [hk]
      simp only [lbaRange, dvmPageSectors, uintRange] at *
      omega

/-- What an iteration of such a request comes to. -/
inductive StraightStep (c₀ : DvmCache n) (rq : AccessRequest) (s : AccessState n) (k : Nat) :
    Prop
  | moves (s' : AccessState n) (step : accessLoop rq s = some (.inl s'))
      (inv : StraightInv c₀ rq s') (num : s'.numSectors = s.numSectors - k)
      (done : s'.done = s.done + k) (healthy : Healthy s.storage → Healthy s'.storage)
  | returns (r : AccessResult n) (step : accessLoop rq s = some (.inr r))
      (failed : ¬ Healthy s.storage)

theorem Reach.congr
    {k : Nat} (h : Reach c₀ rq s k) (hnum : s.numSectors = s'.numSectors)
    (hdone : s.done = s'.done) : Reach c₀ rq s' k :=
  ⟨hnum ▸ h.le, hdone ▸ h.progress, hdone ▸ h.before⟩

theorem Moved.straight
    {k : Nat} (h : Moved s s' k) (hbase : s.cache.baseSector = c₀.baseSector)
    (hcount : s.done + s.numSectors = rq.origCount) (hle : k ≤ s.numSectors)
    (hstands : k < s.numSectors → Stands rq s') :
    StraightInv c₀ rq s' where
  list := h.list
  base := h.base.trans hbase
  count := by
    rw [h.done, h.num]
    omega
  stands := fun hpos => hstands (by rw [h.num] at hpos; omega)

/-- The request is at sector 0 after the last one, and has the last page still in hand. -/
structure Wraps (s : AccessState n) : Prop where
  first : s.firstSector = 0
  page : ∃ q, s.p = some q ∧ s.cache.baseSector q = lbaRange - dvmPageSectors
  search : s.searchBase = lbaRange - dvmPageSectors + 1

/-- After a hit that does not end it a request is at the page after it, or wraps. -/
theorem Moved.after_hit
    (hm : Moved s s' s.curSectors) (hbound : s.firstSector < lbaRange) (hl : LookedUp s)
    {q : Fin n} (hq : s.p = some q) (hhit : s.cache.baseSector q = s.curPageSector)
    (hend : s.curSectors < s.numSectors) :
    (s.firstSector + s.curSectors < lbaRange ∧
        s'.firstSector = s.firstSector + s.curSectors ∧ SearchOk s') ∨
      s.firstSector + s.curSectors = lbaRange ∧ Wraps s' := by
  have hpage := s.curSectors_page_end hend
  have hoff := s.curPage_add_offset
  have haligned := s.curPage_aligned
  by_cases hwrap : s.firstSector + s.curSectors < lbaRange
  · have hnext : s'.firstSector = s.firstSector + s.curSectors := by
      rw [hm.first, Nat.mod_eq_of_lt hwrap]
    exact Or.inl ⟨hwrap, hnext, searchOk_after_hit hl hq hhit hm.searchBase hnext hend⟩
  · have hlast : s.curPageSector = lbaRange - dvmPageSectors := by
      simp only [lbaRange, dvmPageSectors] at *
      omega
    have hsum : s.firstSector + s.curSectors = lbaRange := by
      simp only [lbaRange, dvmPageSectors] at *
      omega
    refine Or.inr ⟨hsum, ?_, ⟨q, hm.p.trans hq, ?_⟩, ?_⟩
    · rw [hm.first, hsum, Nat.mod_self]
    · rw [hm.base, hhit, hlast]
    · rw [hm.searchBase, hl.2 q hq, hhit, hlast]

/-- After a hit the request stands at the page after it, or at the start of the drive. -/
theorem stands_after_hit
    (hm : Moved s s' s.curSectors) (hfirst : s.firstSector = rq.origFirst + s.done)
    (hbound : s.firstSector < lbaRange) (hl : LookedUp s) {q : Fin n} (hq : s.p = some q)
    (hhit : s.cache.baseSector q = s.curPageSector) (hend : s.curSectors < s.numSectors) :
    Stands rq s' := by
  rcases hm.after_hit hbound hl hq hhit hend with ⟨hlt, hnext, hsearch⟩ | ⟨hsum, hwraps⟩
  · refine .inside ?_ (by rw [hnext]; exact hlt) hsearch
    rw [hnext, hm.done, hfirst]
    omega
  · refine .wrapped ?_ hwraps.page hwraps.search
    rw [hwraps.first, hm.done]
    omega

/-- After a direct transfer that does not end the request there is a cached page ahead. -/
theorem stands_after_direct
    {order : List (Fin n)} (hlist : ListInvariant s.cache order)
    (hm : Moved s s' s.directSectors) (hcache : s'.cache = s.cache)
    (hfirst : s.firstSector = rq.origFirst + s.done) (hl : LookedUp s)
    (hmiss : ∀ q, s.p = some q → s.cache.baseSector q ≠ s.curPageSector)
    (hend : s.directSectors < s.numSectors) :
    Stands rq s' := by
  obtain ⟨-, hnext, hall⟩ := directSectors_le hlist hl hmiss
  cases hp : s.p with
  | none =>
      have := hall hp
      omega
  | some q =>
      have hfound := hl.1
      rw [hp] at hfound
      have hq := hlist.bounded q hfound.1
      have hto := hnext q hp
      have hfirst' : s'.firstSector = s.firstSector + s.directSectors := by
        rw [hm.first, Nat.mod_eq_of_lt (by omega)]
      refine .inside ?_ (by rw [hfirst']; omega)
        (searchOk_after_direct hlist hl hmiss hcache hm.p hm.searchBase hfirst' hend)
      rw [hfirst', hm.done, hfirst]
      omega

/-- An iteration before the wrap. -/
theorem StraightInv.inside
    (h : StraightInv c₀ rq s) (hcached : rq.isCached = false)
    (hknown : diskIsKnown rq.pdrv = true) (hrange : rq.origCount < uintRange)
    (hpos : 0 < s.numSectors) (hfirst : s.firstSector = rq.origFirst + s.done)
    (hbound : s.firstSector < lbaRange) (hsearch : SearchOk s) :
    ∃ k, Reach c₀ rq s k ∧ StraightStep c₀ rq s k := by
  obtain ⟨p, searchBase, hlookup, hl⟩ := lookup_found h.list hsearch
  obtain ⟨s₁, hs₁⟩ : ∃ s₁, s₁ = { s with p := p, searchBase := searchBase } := ⟨_, rfl⟩
  have hcache : s₁.cache = s.cache := by rw [hs₁]
  have hnum : s₁.numSectors = s.numSectors := by rw [hs₁]
  have hdone : s₁.done = s.done := by rw [hs₁]
  have hfirst₁ : s₁.firstSector = s.firstSector := by rw [hs₁]
  have hstorage : s₁.storage = s.storage := by rw [hs₁]
  rw [← hs₁] at hlookup hl
  have hloop : accessLoop rq s = accessBranch rq s₁ := accessLoop_eq hpos hlookup
  have hlist : ∃ order, ListInvariant s₁.cache order := by
    rw [hcache]
    exact h.list
  have hbase : s₁.cache.baseSector = c₀.baseSector := by
    rw [hcache]
    exact h.base
  rw [← hfirst₁] at hfirst hbound
  rw [← hdone] at hfirst
  have hcount : s₁.done + s₁.numSectors = rq.origCount := by
    rw [hdone, hnum]
    exact h.count
  rw [← hnum] at hpos
  rcases accessBranch_cases rq s₁ with ⟨q, hq, hbaseq, hbranch⟩ | ⟨hmiss, hbranch⟩
  · have hused : s₁.cache.Used q := by
      have hfound := hl.1
      rw [hq] at hfound
      exact hfound.1
    have hbranch : accessLoop rq s = accessHit rq s₁ q := hloop.trans hbranch
    refine ⟨s₁.curSectors,
      (reach_of_hit hlist hbase hfirst hbound hpos hused hbaseq).congr hnum hdone, ?_⟩
    rcases accessHit_moved rq hlist hused with ⟨s', hstep, hm⟩ | ⟨r, hr, -, hfail⟩
    · refine .moves s' (hbranch.trans hstep) (hm.straight hbase hcount s₁.curSectors_le.2
        fun hend => stands_after_hit hm hfirst hbound hl hq hbaseq hend) ?_ ?_ ?_
      · rw [hm.num, hnum]
      · rw [hm.done, hdone]
      · rw [← hstorage]
        exact hm.healthy
    · exact .returns r (hbranch.trans hr) (by rw [← hstorage]; exact hfail hknown)
  · have hbranch : accessLoop rq s = accessDirect rq s₁ :=
      hloop.trans (hbranch.trans (accessMiss_straight hcached))
    have hreach := reach_of_direct hlist hbase hfirst hbound hcount hrange hpos hl hmiss
    refine ⟨s₁.directSectors, hreach.congr hnum hdone, ?_⟩
    rcases accessDirect_moves rq hlist with ⟨s', hstep, hsame, hm⟩ | ⟨r, hr, -, hfail⟩
    · obtain ⟨order, hlist⟩ := hlist
      refine .moves s' (hbranch.trans hstep) (hm.straight hbase hcount hreach.le
        fun hend => stands_after_direct hlist hm hsame hfirst hl hmiss hend) ?_ ?_ ?_
      · rw [hm.num, hnum]
      · rw [hm.done, hdone]
      · rw [← hstorage]
        exact hm.healthy
    · exact .returns r (hbranch.trans hr) (by rw [← hstorage]; exact hfail hknown)

/-- An iteration after the wrap. -/
theorem StraightInv.wrapped
    (h : StraightInv c₀ rq s) (hcached : rq.isCached = false)
    (hknown : diskIsKnown rq.pdrv = true) (hstart : rq.origFirst < lbaRange)
    (hrange : rq.origCount < uintRange) (hpos : 0 < s.numSectors)
    (hfirst : s.firstSector + lbaRange = rq.origFirst + s.done)
    {q : Fin n} (hp : s.p = some q) (hq : s.cache.baseSector q = lbaRange - dvmPageSectors)
    (hsearch : s.searchBase = lbaRange - dvmPageSectors + 1) :
    ∃ k, Reach c₀ rq s k ∧ StraightStep c₀ rq s k := by
  have hcount := h.count
  have hoff := s.curPage_add_offset
  have hsmall : s.firstSector < uintRange := by
    omega
  have hlookup : s.lookup = some s := by
    refine if_neg ?_
    rw [hsearch]
    simp only [lbaRange, dvmPageSectors, uintRange] at *
    omega
  have hmiss : s.cache.baseSector q ≠ s.curPageSector := by
    rw [hq]
    simp only [lbaRange, dvmPageSectors, uintRange] at *
    omega
  have hbranch : accessLoop rq s = accessDirect rq s := by
    rw [accessLoop_eq hpos hlookup]
    simp only [accessBranch, hp, if_neg hmiss]
    exact accessMiss_straight hcached
  have hreach := reach_of_wrapped h.base hfirst hstart hcount hrange hpos hp hq
  refine ⟨s.directSectors, hreach, ?_⟩
  rcases accessDirect_moves rq h.list with ⟨s', hstep, -, hm⟩ | ⟨r, hr, -, hfail⟩
  · have hle := hreach.le
    have hnext : s'.firstSector = s.firstSector + s.directSectors := by
      rw [hm.first]
      refine Nat.mod_eq_of_lt ?_
      simp only [lbaRange, uintRange] at *
      omega
    refine .moves s' (hbranch.trans hstep) (hm.straight h.base hcount hle fun hend => ?_)
      hm.num hm.done hm.healthy
    refine .wrapped ?_ ⟨q, hm.p.trans hp, ?_⟩ (hm.searchBase.trans hsearch)
    · rw [hnext, hm.done]
      omega
    · rw [hm.base]
      exact hq
  · exact .returns r (hbranch.trans hr) (hfail hknown)

/-- The step lemma of a request that goes straight to the device. -/
theorem StraightInv.step
    (h : StraightInv c₀ rq s) (hcached : rq.isCached = false)
    (hknown : diskIsKnown rq.pdrv = true) (hstart : rq.origFirst < lbaRange)
    (hrange : rq.origCount < uintRange) (hpos : 0 < s.numSectors) :
    ∃ k, Reach c₀ rq s k ∧ StraightStep c₀ rq s k := by
  cases h.stands hpos with
  | inside hfirst hbound hsearch =>
      exact h.inside hcached hknown hrange hpos hfirst hbound hsearch
  | wrapped hfirst hpage hsearch =>
      obtain ⟨q, hp, hq⟩ := hpage
      exact h.wrapped hcached hknown hstart hrange hpos hfirst hp hq hsearch

theorem StraightInv.start
    {order : List (Fin n)} (hlist : ListInvariant c₀ order) (hstart : rq.origFirst < lbaRange)
    (st : Storage) (buffer : Nat → SectorData) :
    StraightInv c₀ rq (accessStart rq c₀ st buffer) where
  list := ⟨order, hlist⟩
  base := rfl
  count := Nat.zero_add _
  stands := fun _ => .inside rfl hstart fun hlt => absurd hlt (Nat.not_lt_zero _)

/-- A request that stalls nowhere finishes. -/
theorem straight_finishes
    {order : List (Fin n)} (hlist : ListInvariant c₀ order) (hcached : rq.isCached = false)
    (hknown : diskIsKnown rq.pdrv = true) (hstart : rq.origFirst < lbaRange)
    (hrange : rq.origCount < uintRange) (hno : ¬ Stalls c₀ rq)
    (st : Storage) (buffer : Nat → SectorData) :
    Finishes rq (accessStart rq c₀ st buffer) := by
  have hstep : ∀ s : AccessState n, StraightInv c₀ rq s →
      Progresses rq s ∧ ∀ s', accessLoop rq s = some (.inl s') → StraightInv c₀ rq s' := by
    intro s h
    by_cases hpos : 0 < s.numSectors
    · obtain ⟨k, hreach, hout⟩ := h.step hcached hknown hstart hrange hpos
      have hcount := h.count
      have hk : 0 < k :=
        hreach.progress.resolve_right fun hstall => hno ⟨hcached, s.done, by omega, hstall⟩
      cases hout with
      | moves s' hloop hinv hnum _ _ =>
          refine ⟨.moves s' hloop (by omega), fun s'' hloop' => ?_⟩
          rw [hloop] at hloop'
          cases hloop'
          exact hinv
      | returns r hloop _ =>
          refine ⟨.returns r hloop, fun s'' hloop' => ?_⟩
          rw [hloop] at hloop'
          cases hloop'
    · refine ⟨.returns _ (accessLoop_end hpos), fun s' hloop => ?_⟩
      rw [accessLoop_end hpos] at hloop
      cases hloop
  exact finishes_of_progress (StraightInv c₀ rq) (fun s s' h hloop => (hstep s h).2 s' hloop)
    (fun s h => (hstep s h).1) (StraightInv.start hlist hstart st buffer)

/-- A request that stalls never returns, when the drive always succeeds. -/
theorem straight_stalls
    {order : List (Fin n)} (hlist : ListInvariant c₀ order)
    (hknown : diskIsKnown rq.pdrv = true) (hstart : rq.origFirst < lbaRange)
    (hrange : rq.origCount < uintRange) (hstalls : Stalls c₀ rq)
    {st : Storage} (hst : Healthy st) (buffer : Nat → SectorData) (fuel : Nat) :
    dvmCacheAccess fuel rq c₀ st buffer = none := by
  obtain ⟨hcached, d, hd, hstall⟩ := hstalls
  refine run_never
    (fun s => StraightInv c₀ rq s ∧ Healthy s.storage ∧ s.done ≤ d) ?_ fuel
    ⟨StraightInv.start hlist hstart st buffer, hst, Nat.zero_le d⟩
  rintro s ⟨h, hhealthy, hbefore⟩
  have hcount := h.count
  obtain ⟨k, hreach, hout⟩ := h.step hcached hknown hstart hrange (by omega)
  cases hout with
  | moves s' hloop hinv _ hdone hhealthy' =>
      refine ⟨s', hloop, hinv, hhealthy' hhealthy, ?_⟩
      rw [hdone]
      exact hreach.before d hbefore hd hstall
  | returns _ _ hfailed =>
      exact absurd hhealthy hfailed

/--
A request finishes, whatever the drive does, exactly when it does not stall: it goes
through the cache, or at no sector of it the next cached page is a multiple of `2 ^ 32`
sectors away.
-/
theorem dvm_cache_access_finishes_iff
    {order : List (Fin n)} (hlist : ListInvariant c₀ order) (hn : 0 < n) (rq : AccessRequest)
    (hknown : diskIsKnown rq.pdrv = true) (hstart : rq.origFirst < lbaRange)
    (hrange : rq.origCount < uintRange) :
    (∀ st buffer, Finishes rq (accessStart rq c₀ st buffer)) ↔ ¬ Stalls c₀ rq := by
  constructor
  · intro hall hstalls
    have hst : Healthy (Storage.blank true) := ⟨fun _ => rfl, fun _ => rfl⟩
    obtain ⟨fuel, r, hr⟩ := (hall (Storage.blank true) fun _ _ => 0).result
    have hnever := straight_stalls hlist hknown hstart hrange hstalls hst (fun _ _ => 0) fuel
    rw [dvmCacheAccess, hr] at hnever
    cases hnever
  · intro hno st buffer
    cases hcached : rq.isCached with
    | false =>
        exact straight_finishes hlist hcached hknown hstart hrange hno st buffer
    | true =>
        exact finishes_of_progress CachedInv (fun s s' h hloop => (h.step hcached hn).2 s' hloop)
          (fun s h => (h.step hcached hn).1) ⟨hlist.walkable, hstart⟩

/-- A bulk read of the card in a GC Loader: eight sectors, into an aligned buffer. -/
def bulkRead : AccessRequest :=
  ⟨7, 0, 8, true, false⟩

/-- It finishes when nothing is cached. -/
theorem bulkRead_finishes :
    Finishes bulkRead
      (accessStart bulkRead (dvmCacheReset (DvmCache.atBoot 32)) (Storage.blank true)
        fun _ _ => 0) := by
  refine (dvm_cache_access_finishes_iff (dvmCacheReset_spec (DvmCache.atBoot 32)) (by decide)
    bulkRead rfl (by decide) (by decide)).2 ?_ _ _
  rintro ⟨-, d, hd, ⟨-, q, hq, -⟩ | ⟨-, hwrap⟩⟩
  · exact hq rfl
  · simp only [bulkRead, lbaRange, uintRange, dvmPageSectors] at hd hwrap
    omega

/-- One page is cached: the one at sector `2 ^ 32`. -/
def farPageCached : DvmCache 32 :=
  { dvmCacheReset (DvmCache.atBoot 32) with
    baseSector := Function.update (dvmCacheReset (DvmCache.atBoot 32)).baseSector 0 uintRange }

theorem farPageCached_list : ListInvariant farPageCached (List.finRange 32) := by
  have hreset := dvmCacheReset_spec (DvmCache.atBoot 32)
  have hunused : ∀ q, ¬ (dvmCacheReset (DvmCache.atBoot 32)).Used q := fun q hq => hq rfl
  rw [List.finRange_succ] at hreset ⊢
  have hsplit : ListInvariant (dvmCacheReset (DvmCache.atBoot 32))
      ([] ++ 0 :: (List.finRange 31).map Fin.succ) := hreset
  exact hsplit.rebase (fun q hq => absurd hq List.not_mem_nil) (fun q _ => hunused q)
    (Or.inr ⟨by decide, by decide, fun q hq _ => absurd hq (hunused q)⟩) _

/-- The read never returns: it goes on by no sectors at all. -/
theorem far_page_never_returns :
    ListInvariant farPageCached (List.finRange 32) ∧
      ∀ fuel, dvmCacheAccess fuel bulkRead farPageCached (Storage.blank true)
        (fun _ _ => 0) = none := by
  refine ⟨farPageCached_list, fun fuel => ?_⟩
  have hst : Healthy (Storage.blank true) := ⟨fun _ => rfl, fun _ => rfl⟩
  have hused : farPageCached.baseSector 0 ≠ dvmEmptyPage := by
    decide
  refine straight_stalls farPageCached_list rfl (by decide) (by decide) ?_ hst _ fuel
  refine ⟨rfl, 0, by decide, Or.inl ⟨by decide, 0, hused, by decide, by decide, ?_⟩⟩
  intro r hr _
  by_cases hzero : r = 0
  · rw [hzero]
  · exact absurd (Function.update_of_ne hzero _ _) hr

end Dvm
end Cubiboot
