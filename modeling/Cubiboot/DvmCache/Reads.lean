import Cubiboot.DvmCache.Iteration

/-!
# Read requests

What one iteration of a read keeps, branch by branch, and what a read has
delivered when it returns.  `accessMeasure` falls in every iteration, a page
fill included: the fill is followed by a hit of the page just filled.

Results: `accessHit_read`, `accessFill_read` and `accessDirect_read`, one for each
branch; `accessStep_read`, an iteration; `dvmCacheAccess_read`, what a read leaves
behind, and `dvmCacheAccess_read_returns`, that it returns.
-/

namespace Cubiboot
namespace Dvm

open CopyRange

variable {n : Nat}

/-- `PagesMatch` looks at the sectors of the drive only. -/
theorem PagesMatch.of_sectors
    {c : DvmCache n} {st st' : Storage} {pdrv : Nat}
    (h : PagesMatch c st pdrv) (hst : st'.sectors = st.sectors) :
    PagesMatch c st' pdrv := by
  intro p hp i hi
  rw [hst]
  exact h p hp i hi

/-- Zero when the iteration to come hits a page already found. -/
def hitPending (s : AccessState n) : Nat :=
  match s.p with
  | some q =>
      if s.cache.baseSector q = s.curPageSector ∧
          s.curPageSector < s.searchBase then 0 else 1
  | none => 1

/-- Every iteration lowers this measure. -/
def accessMeasure (s : AccessState n) : Nat :=
  2 * s.numSectors + hitPending s

theorem hitPending_le (s : AccessState n) :
    hitPending s ≤ 1 := by
  unfold hitPending
  split
  · split <;> omega
  · exact le_rfl

/-- An iteration that looks a page up and misses was not about to hit. -/
theorem hitPending_of_miss
    {s : AccessState n} {p : Option (Fin n)} {searchBase : Nat}
    (hlookup : s.lookup = some { s with p := p, searchBase := searchBase })
    (hmiss : ∀ q, p = some q → s.cache.baseSector q ≠ s.curPageSector) :
    hitPending s = 1 := by
  unfold hitPending
  cases hp : s.p with
  | none => rfl
  | some q =>
      refine if_neg ?_
      rintro ⟨hbase, hlt⟩
      rw [AccessState.lookup, if_neg (by omega)] at hlookup
      have hs : s.p = p := congrArg AccessState.p (Option.some.inj hlookup)
      exact hmiss q (by rw [← hs, hp]) hbase

/-- Moving on in the request lowers the measure. -/
theorem accessMeasure_of_lt
    {s s' : AccessState n}
    (h : s'.numSectors < s.numSectors) :
    accessMeasure s' < accessMeasure s := by
  have := hitPending_le s'
  simp only [accessMeasure]
  omega

/-- A page is taken for another place on the drive. -/
structure PageReplaced
    (c c' : DvmCache n) (p : Fin n) (place : Nat) (data : Nat → SectorData) : Prop where
  base : c'.baseSector = Function.update c.baseSector p place
  data : c'.dvmCacheData = Function.update c.dvmCacheData p data

section PageReplaced

variable {c c' : DvmCache n} {p q : Fin n} {place limit pdrv : Nat}
variable {data : Nat → SectorData} {st st' : Storage}

theorem PageReplaced.base_self (h : PageReplaced c c' p place data) :
    c'.baseSector p = place := by
  rw [h.base, Function.update_self]

/-- A page without a place is not used. -/
theorem PageReplaced.blank (h : PageReplaced c c' p dvmEmptyPage data) : ¬ c'.Used p :=
  fun hno => hno h.base_self

/-- The other pages are as they were. -/
theorem PageReplaced.other
    (h : PageReplaced c c' p place data) (hqp : q ≠ p) (hq : c'.Used q) :
    c.Used q ∧ c'.baseSector q = c.baseSector q ∧
      c'.dvmCacheData q = c.dvmCacheData q := by
  have hbase : c'.baseSector q = c.baseSector q := by
    rw [h.base, Function.update_of_ne hqp]
  refine ⟨?_, hbase, by rw [h.data, Function.update_of_ne hqp]⟩
  unfold DvmCache.Used at hq ⊢
  rwa [hbase] at hq

theorem PageReplaced.pagesBelow
    (h : PageReplaced c c' p place data) (hbelow : PagesBelow c limit)
    (hplace : c'.Used p → place < limit) : PagesBelow c' limit := by
  intro q hq
  by_cases hqp : q = p
  · subst hqp
    rw [h.base_self]
    exact hplace hq
  · obtain ⟨hused, hbase, _⟩ := h.other hqp hq
    rw [hbase]
    exact hbelow q hused

theorem PageReplaced.pagesMatch
    (h : PageReplaced c c' p place data) (hmatch : PagesMatch c st pdrv)
    (hsectors : st'.sectors = st.sectors)
    (hpage : c'.Used p → ∀ i < dvmPageSectors, data i = st.sectors pdrv (place + i)) :
    PagesMatch c' st' pdrv := by
  intro q hq i hi
  rw [hsectors]
  by_cases hqp : q = p
  · subst hqp
    rw [h.data, Function.update_self, h.base_self]
    exact hpage hq i hi
  · obtain ⟨hused, hbase, hdata⟩ := h.other hqp hq
    rw [hbase, hdata]
    exact hmatch q hused i hi

end PageReplaced

/-- What holds between two iterations of a read. -/
structure ReadInv
    (rq : AccessRequest) (limit : Nat) (st₀ : Storage) (c₀ : DvmCache n)
    (s : AccessState n) : Prop where
  loop : LoopInv rq limit s
  pages : PagesMatch s.cache s.storage rq.pdrv
  known : ∀ p, s.cache.Used p → diskIsKnown rq.pdrv = true
  drives : s.storage.sectors = st₀.sectors
  outcomes : s.storage.writeOutcome = st₀.writeOutcome
  flags : SameFlags c₀ s.cache
  delivered : ∀ i < s.done,
    s.buffer i = st₀.sectors rq.pdrv (rq.origFirst + i)

/-- What holds when a read has returned. -/
structure ReadPost
    (rq : AccessRequest) (limit : Nat) (st₀ : Storage) (c₀ : DvmCache n)
    (r : AccessResult n) : Prop where
  list : ∃ order, ListInvariant r.cache order
  below : PagesBelow r.cache limit
  pages : PagesMatch r.cache r.storage rq.pdrv
  known : ∀ p, r.cache.Used p → diskIsKnown rq.pdrv = true
  drives : r.storage.sectors = st₀.sectors
  outcomes : r.storage.writeOutcome = st₀.writeOutcome
  flags : SameFlags c₀ r.cache
  delivered : r.res = .resOk → ∀ i < rq.origCount,
    r.buffer i = st₀.sectors rq.pdrv (rq.origFirst + i)

section ReadStep

variable {rq : AccessRequest} {limit : Nat}
variable {st₀ : Storage} {c₀ : DvmCache n} {s : AccessState n}

/-- A read that hits copies from the page. -/
theorem accessHit_read
    (h : ReadInv rq limit st₀ c₀ s) (hw : rq.isWrite = false)
    (hl : LookedUp s) (hpos : 0 < s.numSectors)
    {q : Fin n} (hq : s.p = some q)
    (hhit : s.cache.baseSector q = s.curPageSector) :
    ∃ s', accessHit rq s q = some (.inl s') ∧
      ReadInv rq limit st₀ c₀ s' ∧ s'.numSectors < s.numSectors := by
  obtain ⟨order, hlist⟩ := h.loop.list
  have hused : s.cache.Used q := by
    have := hl.1
    rw [hq] at this
    exact this.1
  have hcur := s.curSectors_le
  have hcurpos := s.curSectors_pos hpos
  have hfirst := s.curPage_add_offset
  have hplace := h.loop.place hpos
  obtain ⟨buffer, hbuffer⟩ : ∃ b, b =
      copyRange s.buffer s.done s.curSectors
        (fun i => s.cache.dvmCacheData q (s.curPageOffset + i)) := ⟨_, rfl⟩
  have hlist₁ : ListInvariant { s with buffer := buffer }.cache order := hlist
  obtain ⟨c', order', hpromote, hlist', hsame⟩ := promoteHit_spec hlist₁ hused
  have hrun : accessHit rq s q =
      some (.inl
        ({ s with buffer := buffer, cache := c' }.advance s.curSectors)) := by
    simp only [accessHit, hw, Bool.false_eq_true, if_false, ← hbuffer, hpromote,
      Option.map_some]
  refine ⟨_, hrun, ?_, ?_⟩
  · refine
      { loop := ?_
        pages := hsame.pagesMatch.2 h.pages
        known := fun p hp => h.known p ((hsame.used_iff p).1 hp)
        drives := h.drives
        outcomes := h.outcomes
        flags := h.flags.trans hsame.flags
        delivered := ?_ }
    · refine h.loop.advance hpos hcur.2 ⟨order', hlist'⟩
        (hsame.pagesBelow h.loop.below) rfl rfl rfl (fun hp hf => ?_)
      refine searchOk_after_hit hl hq hhit rfl hf ?_
      simp only [AccessState.advance] at hp
      omega
    · intro i hi
      simp only [AccessState.advance] at hi ⊢
      rw [hbuffer]
      by_cases hlt : i < s.done
      · rw [copyRange_outside (by omega)]
        exact h.delivered i hlt
      · rw [copyRange_inside (by omega) (by omega),
          h.pages q hused _ (by omega), h.drives, hhit]
        congr 1
        omega
  · simp only [AccessState.advance]
    omega

/-- A read that fills a page hits it next, or is served uncached. -/
theorem accessFill_read
    (h : ReadInv rq limit st₀ c₀ s) (hn : 0 < n)
    (hl : LookedUp s) (hpos : 0 < s.numSectors)
    (hmiss : ∀ q, s.p = some q → s.cache.baseSector q ≠ s.curPageSector) :
    (∃ s', accessFill rq s = some (.inl s') ∧
      ReadInv rq limit st₀ c₀ s' ∧
        s'.numSectors = s.numSectors ∧ hitPending s' = 0) ∨
      ∃ r, accessFill rq s = some (.inr r) ∧ ReadPost rq limit st₀ c₀ r := by
  obtain ⟨p, c', r, hr, hdata, hlist', hflags, hcase⟩ :=
    accessFill_spec h.loop hl hn hpos hmiss
  have hsectors : r.storage.sectors = s.storage.sectors := by
    rw [hr, diskReadRaw_sectors]
  have houtcomes : r.storage.writeOutcome = s.storage.writeOutcome := by
    rw [hr, diskReadRaw_writeOutcome]
  rcases hcase with ⟨hres, hbase, hfill⟩ | ⟨hres, hbase, hfill⟩
  · have hreplaced : PageReplaced s.cache c' p dvmEmptyPage r.buff := ⟨hbase, hdata⟩
    have hblank := hreplaced.blank
    refine Or.inr ⟨_, hfill, hlist',
      hreplaced.pagesBelow h.loop.below fun hp => absurd hp hblank,
      hreplaced.pagesMatch h.pages (diskReadRaw_sectors.trans hsectors)
        fun hp => absurd hp hblank,
      fun q hq => ?_, ?_, ?_, h.flags.trans hflags, fun hok i hi => ?_⟩
    · have hqp : q ≠ p := fun heq => hblank (heq ▸ hq)
      exact h.known q (hreplaced.other hqp hq).1
    · rw [diskReadRaw_sectors, hsectors, h.drives]
    · rw [diskReadRaw_writeOutcome, houtcomes, h.outcomes]
    · obtain ⟨_, hbuff⟩ := diskReadRaw_ok hok
      show (diskReadRaw r.storage rq.pdrv s.buffer 0 rq.origFirst
        rq.origCount).buff i = _
      rw [hbuff, copyRange_inside (by omega) (by omega)]
      simp only [Storage.sectorsFrom, hsectors, h.drives, Nat.sub_zero]
  · have hreplaced : PageReplaced s.cache c' p s.curPageSector r.buff := ⟨hbase, hdata⟩
    obtain ⟨hknown, hbuff⟩ := diskReadRaw_ok (hr ▸ hres)
    have hpage : ∀ i < dvmPageSectors,
        r.buff i = s.storage.sectors rq.pdrv (s.curPageSector + i) := by
      intro i hi
      rw [hr, hbuff, copyRange_inside (by omega) (by omega)]
      rfl
    have hbelow : s.curPageSector < limit := by
      have h₁ := h.loop.first_lt hpos
      have h₂ := s.curPage_add_offset
      omega
    refine Or.inl ⟨_, hfill, ⟨?_, hreplaced.pagesMatch h.pages hsectors fun _ => hpage,
      fun _ _ => hknown, hsectors.trans h.drives, houtcomes.trans h.outcomes,
      h.flags.trans hflags, h.delivered⟩, rfl, ?_⟩
    · exact
        { list := hlist'
          below := hreplaced.pagesBelow h.loop.below fun _ => hbelow
          count := h.loop.count
          place := h.loop.place
          range := h.loop.range
          limit_le := h.loop.limit_le
          search := fun _ _ => searchOk_after_fill _ hbase }
    · refine if_pos ⟨hreplaced.base_self, ?_⟩
      show s.curPageSector < s.curPageSector + 1
      omega

/-- A read passed to the device, up to the next cached page. -/
theorem accessDirect_read
    (h : ReadInv rq limit st₀ c₀ s) (hw : rq.isWrite = false)
    (hl : LookedUp s) (hpos : 0 < s.numSectors)
    (hmiss : ∀ q, s.p = some q → s.cache.baseSector q ≠ s.curPageSector) :
    (∃ s', accessDirect rq s = some (.inl s') ∧
      ReadInv rq limit st₀ c₀ s' ∧
        (limit ≤ uintRange → s'.numSectors < s.numSectors)) ∨
      ∃ r, accessDirect rq s = some (.inr r) ∧ ReadPost rq limit st₀ c₀ r := by
  obtain ⟨order, hlist⟩ := h.loop.list
  have hdir := directSectors_le hlist hl hmiss
  have hplace := h.loop.place hpos
  obtain ⟨r, hr⟩ : ∃ r, r =
      diskReadRaw s.storage rq.pdrv s.buffer s.done s.firstSector
        s.directSectors := ⟨_, rfl⟩
  have hsectors : r.storage.sectors = st₀.sectors := by
    rw [hr, diskReadRaw_sectors, h.drives]
  have houtcomes : r.storage.writeOutcome = st₀.writeOutcome := by
    rw [hr, diskReadRaw_writeOutcome, h.outcomes]
  have hpages : PagesMatch s.cache r.storage rq.pdrv :=
    h.pages.of_sectors (hsectors.trans h.drives.symm)
  by_cases hres : r.res = .resOk
  · left
    have hrun : accessDirect rq s =
        some (.inl
          ({ s with buffer := r.buff, storage := r.storage }.advance
            s.directSectors)) := by
      simp only [accessDirect, hw, Bool.false_eq_true, if_false, ← hr, hres,
        ne_eq, not_true_eq_false]
    refine ⟨_, hrun, ?_, ?_⟩
    · have hbuff : r.buff =
          copyRange s.buffer s.done s.directSectors
            (s.storage.sectorsFrom rq.pdrv s.firstSector) := by
        rw [hr] at hres ⊢
        exact (diskReadRaw_ok hres).2
      refine
        { loop := ?_
          pages := hpages
          known := h.known
          drives := hsectors
          outcomes := houtcomes
          flags := h.flags
          delivered := ?_ }
      · refine h.loop.advance hpos hdir.1 ⟨order, hlist⟩ h.loop.below
          rfl rfl rfl (fun hp hf => ?_)
        refine searchOk_after_direct hlist hl hmiss rfl rfl rfl hf ?_
        simp only [AccessState.advance] at hp
        omega
      · intro i hi
        simp only [AccessState.advance, hbuff] at hi ⊢
        by_cases hlt : i < s.done
        · rw [copyRange_outside (by omega)]
          exact h.delivered i hlt
        · rw [copyRange_inside (by omega) (by omega)]
          simp only [Storage.sectorsFrom, h.drives]
          congr 1
          omega
    · intro hlimit
      have hk :=
        directSectors_pos hlist hl hpos
          (fun p hp => (h.loop.below p hp).trans_le hlimit) hmiss
      simp only [AccessState.advance]
      omega
  · right
    have hrun : accessDirect rq s =
        some (.inr ⟨r.res, r.buff, s.cache, r.storage⟩) := by
      simp only [accessDirect, hw, Bool.false_eq_true, if_false, ← hr, hres,
        ne_eq, not_false_eq_true, if_true]
    exact ⟨_, hrun, ⟨order, hlist⟩, h.loop.below, hpages, h.known, hsectors,
      houtcomes, h.flags, fun hok => absurd hok hres⟩

/-- An iteration that missed. -/
theorem accessMiss_read
    (h : ReadInv rq limit st₀ c₀ s) (hw : rq.isWrite = false) (hn : 0 < n)
    (hl : LookedUp s) (hpos : 0 < s.numSectors)
    (hmiss : ∀ q, s.p = some q → s.cache.baseSector q ≠ s.curPageSector) :
    (∃ s', accessMiss rq s = some (.inl s') ∧
      ReadInv rq limit st₀ c₀ s' ∧
        (limit ≤ uintRange →
          accessMeasure s' < 2 * s.numSectors + 1)) ∨
      ∃ r, accessMiss rq s = some (.inr r) ∧ ReadPost rq limit st₀ c₀ r := by
  rw [accessMiss]
  split
  · rcases accessFill_read h hn hl hpos hmiss with
      ⟨s', hs', hinv, hnum, hhit⟩ | hr
    · refine Or.inl ⟨s', hs', hinv, fun _ => ?_⟩
      simp only [accessMeasure, hhit, hnum]
      omega
    · exact Or.inr hr
  · rcases accessDirect_read h hw hl hpos hmiss with ⟨s', hs', hinv, hlt⟩ | hr
    · refine Or.inl ⟨s', hs', hinv, fun hlimit => ?_⟩
      have := hlt hlimit
      have := hitPending_le s'
      simp only [accessMeasure]
      omega
    · exact Or.inr hr

/-- One iteration of a read. -/
theorem accessStep_read
    (h : ReadInv rq limit st₀ c₀ s) (hw : rq.isWrite = false) (hn : 0 < n)
    (hpos : 0 < s.numSectors) :
    (∃ s', accessStep rq s = some (.inl s') ∧
      ReadInv rq limit st₀ c₀ s' ∧
        (limit ≤ uintRange → accessMeasure s' < accessMeasure s)) ∨
      ∃ r, accessStep rq s = some (.inr r) ∧ ReadPost rq limit st₀ c₀ r := by
  obtain ⟨p, searchBase, hlookup, hl⟩ := lookup_spec h.loop hpos
  have h₁ : ReadInv rq limit st₀ c₀ { s with p := p, searchBase := searchBase } :=
    { h with loop := h.loop.lookup hl }
  rw [accessStep, hlookup, Option.bind_some]
  rcases accessBranch_cases rq { s with p := p, searchBase := searchBase } with
    ⟨q, hp, hq, hbranch⟩ | ⟨hmiss, hbranch⟩
  · obtain ⟨s', hs', hinv, hlt⟩ := accessHit_read h₁ hw hl hpos hp hq
    exact Or.inl ⟨s', hbranch.trans hs', hinv, fun _ => accessMeasure_of_lt hlt⟩
  · have hpending := hitPending_of_miss hlookup hmiss
    rw [hbranch]
    rcases accessMiss_read h₁ hw hn hl hpos hmiss with ⟨s', hs', hinv, hlt⟩ | hr
    · refine Or.inl ⟨s', hs', hinv, fun hlimit => ?_⟩
      have := hlt hlimit
      simp only [accessMeasure, hpending] at this ⊢
      omega
    · exact Or.inr hr

end ReadStep

/-- A claimed cache that agrees with the drive of the request. -/
structure Claimed
    (rq : AccessRequest) (limit : Nat) (c : DvmCache n) (st : Storage) :
    Prop where
  list : ∃ order, ListInvariant c order
  below : PagesBelow c limit
  pages : PagesMatch c st rq.pdrv
  range : rq.origFirst + rq.origCount ≤ limit
  limit_le : limit ≤ lbaRange

/-- The loop invariant holds where the loop starts. -/
theorem Claimed.loop
    {rq : AccessRequest} {limit : Nat} {c : DvmCache n} {st : Storage}
    (h : Claimed rq limit c st) (buffer : Nat → SectorData) :
    LoopInv rq limit (accessStart rq c st buffer) where
  list := h.list
  below := h.below
  count := Nat.zero_add _
  place := fun _ => rfl
  range := h.range
  limit_le := h.limit_le
  search := fun _ hlt => absurd hlt (Nat.not_lt_zero _)

section WholeRead

variable {rq : AccessRequest} {limit : Nat}
variable {c : DvmCache n} {st : Storage} {buffer : Nat → SectorData}

theorem ReadInv.start
    (h : Claimed rq limit c st)
    (hknown : ∀ p, c.Used p → diskIsKnown rq.pdrv = true) :
    ReadInv rq limit st c (accessStart rq c st buffer) where
  loop := h.loop buffer
  pages := h.pages
  known := hknown
  drives := rfl
  outcomes := rfl
  flags := SameFlags.refl c
  delivered := fun _ hi => absurd hi (Nat.not_lt_zero _)

/-- A read that has come to its end has delivered the whole request. -/
theorem ReadInv.finish
    {s : AccessState n} {st₀ : Storage} {c₀ : DvmCache n}
    (h : ReadInv rq limit st₀ c₀ s) (hzero : s.numSectors = 0) :
    ReadPost rq limit st₀ c₀ ⟨.resOk, s.buffer, s.cache, s.storage⟩ where
  list := h.loop.list
  below := h.loop.below
  pages := h.pages
  known := h.known
  drives := h.drives
  outcomes := h.outcomes
  flags := h.flags
  delivered := fun _ i hi => by
    have hcount := h.loop.count
    exact h.delivered i (by omega)

/-- What a read leaves behind, whenever it returns. -/
theorem dvmCacheAccess_read
    (h : Claimed rq limit c st)
    (hknown : ∀ p, c.Used p → diskIsKnown rq.pdrv = true)
    (hw : rq.isWrite = false) (hn : 0 < n)
    {fuel : Nat} {r : AccessResult n}
    (hr : dvmCacheAccess fuel rq c st buffer = some r) :
    ReadPost rq limit st c r := by
  refine FuelLoop.run_sound (ReadInv rq limit st c) _ ?_ ?_
    (ReadInv.start h hknown) hr
  · intro s s' hs hstep
    rw [accessLoop] at hstep
    split at hstep
    · cases hstep
    · rename_i hpos
      rcases accessStep_read hs hw hn (by omega) with
        ⟨s'', hs'', hinv, _⟩ | ⟨r', hr', _⟩
      · rw [hs''] at hstep
        cases hstep
        exact hinv
      · rw [hr'] at hstep
        cases hstep
  · intro s r' hs hstep
    rw [accessLoop] at hstep
    split at hstep
    · rename_i hzero
      cases hstep
      exact hs.finish hzero
    · rename_i hpos
      rcases accessStep_read hs hw hn (by omega) with
        ⟨s'', hs'', _⟩ | ⟨r'', hr'', hpost⟩
      · rw [hs''] at hstep
        cases hstep
      · rw [hr''] at hstep
        cases hstep
        exact hpost

/-- With all sectors below `2 ^ 32` a read returns. -/
theorem dvmCacheAccess_read_returns
    (h : Claimed rq limit c st)
    (hknown : ∀ p, c.Used p → diskIsKnown rq.pdrv = true)
    (hw : rq.isWrite = false) (hn : 0 < n) (hlimit : limit ≤ uintRange) :
    ∃ fuel r, dvmCacheAccess fuel rq c st buffer = some r := by
  refine ⟨accessMeasure (accessStart rq c st buffer) + 1,
    FuelLoop.run_total (ReadInv rq limit st c) accessMeasure ?_
      (ReadInv.start h hknown) (Nat.lt_succ_self _)⟩
  intro s hs
  by_cases hzero : s.numSectors = 0
  · exact Or.inl ⟨_, if_pos hzero⟩
  · rw [accessLoop, if_neg hzero]
    rcases accessStep_read hs hw hn (by omega) with
      ⟨s', hs', hinv, hlt⟩ | ⟨r, hr, _⟩
    · exact Or.inr ⟨s', hs', hinv, hlt hlimit⟩
    · exact Or.inl ⟨r, hr⟩

end WholeRead

end Dvm
end Cubiboot
