import Cubiboot.DvmCache.ListInvariant
import Mathlib.Tactic.Ring

/-!
# One iteration of a cached request

`LoopInv` is what `dvm_cache_access` keeps between two iterations, whatever the
direction of the transfer: the bookkeeping of the request, the list invariant,
and that a remembered search result is still the right one.  Every branch is
described once, with the cache it leaves, and keeps `LoopInv`.

`limit` bounds the sectors of the request and of the cached pages.

Results: `lookup_spec`, the page that an iteration works with; `accessBranch_cases`,
which branch it takes; `promoteHit_spec`, `accessFill_spec` and `directSectors_le`, what
the branches do to the cache and how far they go; `LoopInv.advance`, the invariant after
them.
-/

namespace Cubiboot
namespace Dvm

variable {n : Nat}

/-- Every used page holds what the drive holds. -/
def PagesMatch (c : DvmCache n) (st : Storage) (pdrv : Nat) : Prop :=
  ∀ p, c.Used p → ∀ i < dvmPageSectors,
    c.dvmCacheData p i = st.sectors pdrv (c.baseSector p + i)

/-- No used page starts at or above `limit`. -/
def PagesBelow (c : DvmCache n) (limit : Nat) : Prop :=
  ∀ p, c.Used p → c.baseSector p < limit

/-- The flags that no request changes once the cache is claimed. -/
structure SameFlags (c c' : DvmCache n) : Prop where
  magic : c'.dvmMagic = c.dvmMagic
  owner : c'.dvmOwnerPdrv = c.dvmOwnerPdrv
  ready : c'.dvmReady = c.dvmReady
  disabled : c'.dvmDisabled = c.dvmDisabled

theorem SameFlags.refl (c : DvmCache n) : SameFlags c c :=
  ⟨rfl, rfl, rfl, rfl⟩

theorem SameFlags.trans
    {c c' c'' : DvmCache n} (h : SameFlags c c') (h' : SameFlags c' c'') :
    SameFlags c c'' :=
  ⟨h'.magic.trans h.magic, h'.owner.trans h.owner,
    h'.ready.trans h.ready, h'.disabled.trans h.disabled⟩

theorem SameContents.flags
    {c c' : DvmCache n} (h : SameContents c c') :
    SameFlags c c' :=
  ⟨h.magic, h.owner, h.ready, h.disabled⟩

theorem SameContents.pagesMatch
    {c c' : DvmCache n} {st : Storage} {pdrv : Nat}
    (h : SameContents c c') :
    PagesMatch c' st pdrv ↔ PagesMatch c st pdrv := by
  simp only [PagesMatch, h.used_iff, h.data, h.base]

theorem SameContents.pagesBelow
    {c c' : DvmCache n} {limit : Nat}
    (h : SameContents c c') (hb : PagesBelow c limit) :
    PagesBelow c' limit := by
  intro p hp
  rw [h.base]
  exact hb p ((h.used_iff p).1 hp)

/-- `ListInvariant` depends on the order and the base sectors only. -/
theorem ListInvariant.reorder
    {c c' : DvmCache n} {order order' : List (Fin n)}
    (h : ListInvariant c order)
    (horder : ListOrder c' order')
    (hsame : SameContents c c')
    (hcomplete : ∀ p, p ∈ order')
    (hunused : order'.Pairwise fun p q => ¬ c.Used p → ¬ c.Used q) :
    ListInvariant c' order' where
  toListOrder := horder
  complete := hcomplete
  unusedLast := hunused.imp fun hpq hp => by
    rw [hsame.used_iff] at hp ⊢
    exact hpq hp
  distinct := fun p q hp hpq => by
    rw [hsame.base] at hpq
    exact h.distinct p q ((hsame.used_iff p).1 hp) hpq
  aligned := fun p hp => by
    rw [hsame.base]
    exact h.aligned p ((hsame.used_iff p).1 hp)
  bounded := fun p hp => by
    rw [hsame.base]
    exact h.bounded p ((hsame.used_iff p).1 hp)

/-- The list invariant does not look at the page region. -/
theorem ListInvariant.withPages
    {c : DvmCache n} {order : List (Fin n)}
    (h : ListInvariant c order)
    (d : Fin n → Nat → SectorData) (magic : Nat) :
    ListInvariant { c with dvmCacheData := d, dvmMagic := magic } order where
  toListOrder := ⟨h.toListOrder.nodup, h.toListOrder.segment,
    h.toListOrder.head, h.toListOrder.tail⟩
  complete := h.complete
  unusedLast := h.unusedLast
  distinct := h.distinct
  aligned := h.aligned
  bounded := h.bounded

/-- Nor at the flags. -/
theorem ListInvariant.withFlags
    {c : DvmCache n} {order : List (Fin n)}
    (h : ListInvariant c order) (owner : Nat) (ready disabled : Bool) :
    ListInvariant
      { c with dvmOwnerPdrv := owner, dvmReady := ready, dvmDisabled := disabled } order where
  toListOrder := ⟨h.toListOrder.nodup, h.toListOrder.segment,
    h.toListOrder.head, h.toListOrder.tail⟩
  complete := h.complete
  unusedLast := h.unusedLast
  distinct := h.distinct
  aligned := h.aligned
  bounded := h.bounded

/-- Moving a used entry to the front keeps the unused ones last. -/
theorem ListInvariant.reorder_front
    {c c' : DvmCache n} {pre post : List (Fin n)} {p : Fin n}
    (h : ListInvariant c (pre ++ p :: post)) (hp : c.Used p)
    (horder : ListOrder c' (p :: (pre ++ post))) (hsame : SameContents c c') :
    ListInvariant c' (p :: (pre ++ post)) := by
  have hpair := h.unusedLast
  rw [List.pairwise_append] at hpair
  obtain ⟨hpre, hpost, hcross⟩ := hpair
  refine h.reorder horder hsame (fun q => ?_) ?_
  · have := h.complete q
    simpa [or_left_comm] using this
  · rw [List.pairwise_cons, List.pairwise_append]
    refine ⟨fun q _ hnp => absurd hp hnp, hpre, (List.pairwise_cons.1 hpost).2,
      fun q hq r hr => hcross q hq r (List.mem_cons_of_mem p hr)⟩

/-- A used entry is promoted to the front of the list. -/
theorem ListInvariant.promote_front
    {c : DvmCache n} {pre post : List (Fin n)} {p : Fin n}
    (h : ListInvariant c (pre ++ p :: post)) (hp : c.Used p) :
    ∃ c', dvmCachePromote c p = some c' ∧
      ListInvariant c' (p :: (pre ++ post)) ∧ SameContents c c' := by
  obtain ⟨c', hpromote, horder, hsame⟩ := dvmCachePromote_spec h.toListOrder
  exact ⟨c', hpromote, h.reorder_front hp horder hsame, hsame⟩

/-- Promoting a used entry keeps the list invariant. -/
theorem ListInvariant.promote
    {c : DvmCache n} {order : List (Fin n)} {p : Fin n}
    (h : ListInvariant c order) (hp : c.Used p) :
    ∃ c' order', dvmCachePromote c p = some c' ∧
      ListInvariant c' order' ∧ SameContents c c' := by
  obtain ⟨pre, post, rfl⟩ := List.append_of_mem (h.complete p)
  obtain ⟨c', hpromote, hlist, hsame⟩ := h.promote_front hp
  exact ⟨c', _, hpromote, hlist, hsame⟩

/-- A remembered search result is right as long as no new search is due. -/
def SearchOk (s : AccessState n) : Prop :=
  s.curPageSector < s.searchBase →
    Found s.cache s.curPageSector s.p ∧
      ∀ q, s.p = some q → s.searchBase = s.cache.baseSector q + 1

/-- The search result of this iteration is in place. -/
def LookedUp (s : AccessState n) : Prop :=
  Found s.cache s.curPageSector s.p ∧
    ∀ q, s.p = some q → s.searchBase = s.cache.baseSector q + 1

/-- What holds between two iterations of `dvm_cache_access`. -/
structure LoopInv
    (rq : AccessRequest) (limit : Nat) (s : AccessState n) : Prop where
  list : ∃ order, ListInvariant s.cache order
  below : PagesBelow s.cache limit
  count : s.done + s.numSectors = rq.origCount
  place : 0 < s.numSectors → s.firstSector = rq.origFirst + s.done
  range : rq.origFirst + rq.origCount ≤ limit
  limit_le : limit ≤ lbaRange
  search : 0 < s.numSectors → SearchOk s

section Geometry

variable {s : AccessState n}

theorem AccessState.curPage_add_offset :
    s.curPageSector + s.curPageOffset = s.firstSector := by
  unfold curPageSector curPageOffset
  have := Nat.mod_le s.firstSector dvmPageSectors
  omega

theorem AccessState.curPage_aligned :
    s.curPageSector % dvmPageSectors = 0 := by
  simp only [curPageSector, dvmPageSectors]
  omega

theorem AccessState.curPageOffset_lt :
    s.curPageOffset < dvmPageSectors := by
  simp only [curPageOffset, dvmPageSectors]
  omega

theorem AccessState.curSectors_le :
    s.curPageOffset + s.curSectors ≤ dvmPageSectors ∧
      s.curSectors ≤ s.numSectors := by
  unfold curSectors
  have := s.curPageOffset_lt
  omega

theorem AccessState.curSectors_pos
    (h : 0 < s.numSectors) : 0 < s.curSectors := by
  unfold curSectors
  have := s.curPageOffset_lt
  omega

/-- An iteration that does not end the request reaches the end of its page. -/
theorem AccessState.curSectors_page_end
    (h : s.curSectors < s.numSectors) :
    s.curPageOffset + s.curSectors = dvmPageSectors := by
  unfold curSectors at h ⊢
  have := s.curPageOffset_lt
  omega

end Geometry

/-- The sector of an iteration lies below the limit. -/
theorem LoopInv.first_lt
    {rq : AccessRequest} {limit : Nat} {s : AccessState n}
    (h : LoopInv rq limit s) (hpos : 0 < s.numSectors) :
    s.firstSector + s.numSectors ≤ limit := by
  have := h.place hpos
  have := h.count
  have := h.range
  omega

/-- The search at the top of an iteration returns and is right. -/
theorem lookup_found
    {s : AccessState n} (hlist : ∃ order, ListInvariant s.cache order) (hs : SearchOk s) :
    ∃ p searchBase,
      s.lookup = some { s with p := p, searchBase := searchBase } ∧
      LookedUp { s with p := p, searchBase := searchBase } := by
  obtain ⟨order, hlist⟩ := hlist
  by_cases hdue : s.curPageSector ≥ s.searchBase
  · obtain ⟨p, hsearch, hfound⟩ := dvmCacheSearch_spec hlist s.curPageSector
    cases p with
    | none =>
        refine ⟨none, dvmEmptyPage, ?_, hfound, by simp⟩
        rw [AccessState.lookup, if_pos hdue, hsearch]
        rfl
    | some q =>
        have hlt := hlist.base_lt hfound.1
        refine ⟨some q, (s.cache.baseSector q + 1) % lbaRange, ?_, hfound, ?_⟩
        · rw [AccessState.lookup, if_pos hdue, hsearch]
          rfl
        · rintro r hr
          have hqr : q = r := by simpa using hr
          rw [← hqr]
          refine Nat.mod_eq_of_lt ?_
          simp only [dvmEmptyPage, lbaRange] at hlt ⊢
          omega
  · refine ⟨s.p, s.searchBase, ?_, hs (by omega)⟩
    rw [AccessState.lookup, if_neg hdue]

theorem lookup_spec
    {rq : AccessRequest} {limit : Nat} {s : AccessState n}
    (h : LoopInv rq limit s) (hpos : 0 < s.numSectors) :
    ∃ p searchBase,
      s.lookup = some { s with p := p, searchBase := searchBase } ∧
      LookedUp { s with p := p, searchBase := searchBase } :=
  lookup_found h.list (h.search hpos)

/-- Looking up keeps the loop invariant. -/
theorem LoopInv.lookup
    {rq : AccessRequest} {limit : Nat} {s : AccessState n}
    (h : LoopInv rq limit s) {p : Option (Fin n)} {searchBase : Nat}
    (hl : LookedUp { s with p := p, searchBase := searchBase }) :
    LoopInv rq limit { s with p := p, searchBase := searchBase } where
  list := h.list
  below := h.below
  count := h.count
  place := h.place
  range := h.range
  limit_le := h.limit_le
  search := fun _ _ => hl

/-- Moving on by a number of sectors of the request. -/
theorem LoopInv.advance
    {rq : AccessRequest} {limit k : Nat} {s s' : AccessState n}
    (h : LoopInv rq limit s) (hpos : 0 < s.numSectors)
    (hk : k ≤ s.numSectors)
    (hlist : ∃ order, ListInvariant s'.cache order)
    (hbelow : PagesBelow s'.cache limit)
    (hfirst : s'.firstSector = s.firstSector)
    (hdone : s'.done = s.done)
    (hnum : s'.numSectors = s.numSectors)
    (hsearch : 0 < (s'.advance k).numSectors →
      (s'.advance k).firstSector = s.firstSector + k →
      SearchOk (s'.advance k)) :
    LoopInv rq limit (s'.advance k) := by
  have hplace := h.place hpos
  have hcount := h.count
  have hrange := h.range
  have hlimit := h.limit_le
  have hadv :
      0 < (s'.advance k).numSectors →
        (s'.advance k).firstSector = s.firstSector + k := by
    intro hp
    simp only [AccessState.advance, hnum] at hp
    simp only [AccessState.advance, hfirst]
    exact Nat.mod_eq_of_lt (by omega)
  refine
    { list := hlist
      below := hbelow
      count := ?_
      place := fun hp => ?_
      range := hrange
      limit_le := hlimit
      search := fun hp => hsearch hp (hadv hp) }
  · simp only [AccessState.advance, hdone, hnum]
    omega
  · rw [hadv hp]
    simp only [AccessState.advance, hdone]
    omega

/-- An iteration finds the page of its first sector, or it does not. -/
theorem accessBranch_cases (rq : AccessRequest) (s : AccessState n) :
    (∃ q, s.p = some q ∧ s.cache.baseSector q = s.curPageSector ∧
        accessBranch rq s = accessHit rq s q) ∨
      (∀ q, s.p = some q → s.cache.baseSector q ≠ s.curPageSector) ∧
        accessBranch rq s = accessMiss rq s := by
  by_cases hhit : ∃ q, s.p = some q ∧ s.cache.baseSector q = s.curPageSector
  · obtain ⟨q, hq, hbase⟩ := hhit
    refine Or.inl ⟨q, hq, hbase, ?_⟩
    simp only [accessBranch, hq, if_pos hbase]
  · have hmiss : ∀ q, s.p = some q → s.cache.baseSector q ≠ s.curPageSector :=
      fun q hq hbase => hhit ⟨q, hq, hbase⟩
    refine Or.inr ⟨hmiss, ?_⟩
    rw [accessBranch]
    split
    · rename_i q hq
      exact if_neg (hmiss q hq)
    · rfl

/-- Promotion at the end of a hit. -/
theorem promoteHit_spec
    {s : AccessState n} {order : List (Fin n)} {q : Fin n}
    (h : ListInvariant s.cache order) (hq : s.cache.Used q) :
    ∃ c' order', s.promoteHit q = some { s with cache := c' } ∧
      ListInvariant c' order' ∧ SameContents s.cache c' := by
  by_cases hw : s.isWhole = true
  · exact ⟨s.cache, order, by simp [AccessState.promoteHit, hw], h,
      SameContents.refl _⟩
  · obtain ⟨c', order', hp, hlist, hsame⟩ := h.promote hq
    refine ⟨c', order', ?_, hlist, hsame⟩
    simp [AccessState.promoteHit, hw, hp]

/-- After a hit the search result is used up. -/
theorem searchOk_after_hit
    {s s' : AccessState n} {q : Fin n}
    (hl : LookedUp s) (hq : s.p = some q)
    (hhit : s.cache.baseSector q = s.curPageSector)
    (hbase : s'.searchBase = s.searchBase)
    (hfirst : s'.firstSector = s.firstSector + s.curSectors)
    (hend : s.curSectors < s.numSectors) :
    SearchOk s' := by
  intro hlt
  have h₁ := hl.2 q hq
  have h₂ := s.curSectors_page_end hend
  have h₃ := s.curPage_add_offset
  have h₄ := s.curPage_aligned
  have h₅ : s'.curPageSector = s.curPageSector + dvmPageSectors := by
    unfold AccessState.curPageSector at h₄ ⊢
    unfold AccessState.curPageSector at h₃
    rw [hfirst]
    simp only [dvmPageSectors] at *
    omega
  simp only [dvmPageSectors] at *
  omega

/-- On a miss no used page starts at the page of this iteration. -/
theorem LookedUp.no_page
    {s : AccessState n}
    (hl : LookedUp s)
    (hmiss : ∀ q, s.p = some q → s.cache.baseSector q ≠ s.curPageSector)
    {r : Fin n} (hr : s.cache.Used r) :
    s.cache.baseSector r ≠ s.curPageSector := by
  have hfound := hl.1
  intro heq
  cases hp : s.p with
  | none =>
      rw [hp] at hfound
      have := hfound r hr
      omega
  | some q =>
      rw [hp] at hfound
      have h₁ := hfound.2.1
      have h₂ := hfound.2.2 r hr (by omega)
      exact hmiss q hp (by omega)

/--
Giving the entry between the used and the unused ones another base sector,
or none, keeps the list invariant.
-/
theorem ListInvariant.rebase
    {c : DvmCache n} {pre post : List (Fin n)} {p : Fin n} {b : Nat}
    (h : ListInvariant c (pre ++ p :: post))
    (hpre : ∀ q ∈ pre, c.Used q)
    (hpost : ∀ q ∈ post, ¬ c.Used q)
    (hb : b = dvmEmptyPage ∨
      (b % dvmPageSectors = 0 ∧ b < lbaRange ∧
        ∀ q, c.Used q → q ≠ p → c.baseSector q ≠ b))
    (d : Fin n → Nat → SectorData) :
    ListInvariant
      { c with
        baseSector := Function.update c.baseSector p b
        dvmCacheData := d }
      (pre ++ p :: post) := by
  have hnd := (List.perm_middle.nodup_iff).1 h.toListOrder.nodup
  have hp : p ∉ pre ++ post := (List.nodup_cons.1 hnd).1
  have hself : Function.update c.baseSector p b p = b := Function.update_self ..
  have hother : ∀ q, q ≠ p →
      Function.update c.baseSector p b q = c.baseSector q := fun q hq =>
    Function.update_of_ne hq ..
  refine
    { toListOrder :=
        ⟨h.toListOrder.nodup, h.toListOrder.segment, h.toListOrder.head,
          h.toListOrder.tail⟩
      complete := h.complete
      unusedLast := ?_
      distinct := ?_
      aligned := ?_
      bounded := ?_ }
  · have hused : ∀ q ∈ pre,
        Function.update c.baseSector p b q ≠ dvmEmptyPage := by
      intro q hq
      rw [hother q (by rintro rfl; exact hp (by simp [hq]))]
      exact hpre q hq
    have hunused : ∀ q ∈ post,
        ¬ Function.update c.baseSector p b q ≠ dvmEmptyPage := by
      intro q hq
      rw [hother q (by rintro rfl; exact hp (by simp [hq]))]
      exact hpost q hq
    rw [List.pairwise_append, List.pairwise_cons]
    refine ⟨?_, ⟨fun q hq _ => hunused q hq, ?_⟩, ?_⟩
    · exact List.Pairwise.imp_of_mem
        (fun hq _ _ hno => absurd (hused _ hq) hno)
        (List.pairwise_of_forall (fun _ _ => trivial) : List.Pairwise (fun _ _ => True) pre)
    · exact List.Pairwise.imp_of_mem
        (fun _ hr _ _ => hunused _ hr)
        (List.pairwise_of_forall (fun _ _ => trivial) : List.Pairwise (fun _ _ => True) post)
    · exact fun q hq r _ hno => absurd (hused q hq) hno
  · intro q r hq hqr
    have hq' : Function.update c.baseSector p b q ≠ dvmEmptyPage := hq
    have hqr' : Function.update c.baseSector p b q =
      Function.update c.baseSector p b r := hqr
    by_cases hqp : q = p
    · by_cases hrp : r = p
      · rw [hqp, hrp]
      · rw [hqp, hself] at hq' hqr'
        rw [hother r hrp] at hqr'
        rcases hb with hb | ⟨_, _, hfresh⟩
        · exact absurd hb hq'
        · have hr : c.Used r := by
            unfold DvmCache.Used
            rw [← hqr']
            exact hq'
          exact absurd hqr'.symm (hfresh r hr hrp)
    · rw [hother q hqp] at hq' hqr'
      by_cases hrp : r = p
      · rw [hrp, hself] at hqr'
        rcases hb with hb | ⟨_, _, hfresh⟩
        · exact absurd (hqr'.trans hb) hq'
        · exact absurd hqr' (hfresh q hq' hqp)
      · rw [hother r hrp] at hqr'
        exact h.distinct q r hq' hqr'
  · intro q hq
    show Function.update c.baseSector p b q % dvmPageSectors = 0
    have hq' : Function.update c.baseSector p b q ≠ dvmEmptyPage := hq
    by_cases hqp : q = p
    · rw [hqp, hself] at hq' ⊢
      exact (hb.resolve_left hq').1
    · rw [hother q hqp] at hq' ⊢
      exact h.aligned q hq'
  · intro q hq
    show Function.update c.baseSector p b q < lbaRange
    have hq' : Function.update c.baseSector p b q ≠ dvmEmptyPage := hq
    by_cases hqp : q = p
    · rw [hqp, hself] at hq' ⊢
      exact (hb.resolve_left hq').2.1
    · rw [hother q hqp] at hq' ⊢
      exact h.bounded q hq'

/--
The fill branch, whatever has been found.  It takes an entry `p`, reads the page of the
iteration into it, and moves it to the front; when the read fails, `p` stays where it is,
unused, and the whole request is read directly.  The list is in order afterwards, unless
another entry holds the page that has been read.
-/
theorem accessFill_taken
    (rq : AccessRequest) {s : AccessState n} {order : List (Fin n)}
    (hlist : ListInvariant s.cache order) (hn : 0 < n) (hfirst : s.firstSector < lbaRange) :
    ∃ p pre post c' r,
      order = pre ++ p :: post ∧
      (∀ q ∈ pre, s.cache.Used q) ∧ (∀ q ∈ post, ¬ s.cache.Used q) ∧
      (s.cache.Used p → post = []) ∧
      r = diskReadRaw s.storage rq.pdrv (s.cache.dvmCacheData p) 0
        s.curPageSector dvmPageSectors ∧
      c'.dvmCacheData = Function.update s.cache.dvmCacheData p r.buff ∧
      SameFlags s.cache c' ∧
      ((r.res ≠ .resOk ∧
        ListInvariant c' (pre ++ p :: post) ∧
        c'.baseSector =
          Function.update s.cache.baseSector p dvmEmptyPage ∧
        accessFill rq s =
          some (.inr
            ⟨(diskReadRaw r.storage rq.pdrv s.buffer 0 rq.origFirst
                rq.origCount).res,
              (diskReadRaw r.storage rq.pdrv s.buffer 0 rq.origFirst
                rq.origCount).buff,
              c',
              (diskReadRaw r.storage rq.pdrv s.buffer 0 rq.origFirst
                rq.origCount).storage⟩)) ∨
      (r.res = .resOk ∧
        ((∀ q, s.cache.Used q → q ≠ p → s.cache.baseSector q ≠ s.curPageSector) →
          ListInvariant c' (p :: (pre ++ post))) ∧
        c'.baseSector =
          Function.update s.cache.baseSector p s.curPageSector ∧
        accessFill rq s =
          some (.inl
            { s with
              cache := c'
              storage := r.storage
              p := some p
              searchBase := s.curPageSector + 1 }))) := by
  obtain ⟨p, pre, post, hevict, rfl, hpre, hpost, hlast⟩ := dvmCacheEvict_spec hlist hn
  have hoff := s.curPage_add_offset
  have hcur : s.curPageSector < lbaRange := by omega
  have haligned := s.curPage_aligned
  by_cases hres :
      (diskReadRaw s.storage rq.pdrv (s.cache.dvmCacheData p) 0
        s.curPageSector dvmPageSectors).res = .resOk
  · have horder₁ : ListOrder
        { s.cache with
          baseSector := Function.update s.cache.baseSector p s.curPageSector
          dvmCacheData := Function.update s.cache.dvmCacheData p
            (diskReadRaw s.storage rq.pdrv (s.cache.dvmCacheData p) 0
              s.curPageSector dvmPageSectors).buff }
        (pre ++ p :: post) :=
      ⟨hlist.toListOrder.nodup, hlist.toListOrder.segment, hlist.toListOrder.head,
        hlist.toListOrder.tail⟩
    have hne : s.curPageSector ≠ dvmEmptyPage := by
      intro heq
      rw [heq] at haligned
      exact absurd haligned (by decide)
    obtain ⟨c', hpromote, horder', hsame⟩ := dvmCachePromote_spec horder₁
    refine ⟨p, pre, post, c', _, rfl, hpre, hpost, hlast, rfl, hsame.data,
      ⟨hsame.magic, hsame.owner, hsame.ready, hsame.disabled⟩, ?_⟩
    right
    refine ⟨hres, fun hclear => ?_, hsame.base, ?_⟩
    · have hlist₁ :=
        hlist.rebase hpre hpost (Or.inr ⟨haligned, hcur, hclear⟩)
          (Function.update s.cache.dvmCacheData p
            (diskReadRaw s.storage rq.pdrv (s.cache.dvmCacheData p) 0
              s.curPageSector dvmPageSectors).buff)
      refine hlist₁.reorder_front ?_ horder' hsame
      show Function.update s.cache.baseSector p s.curPageSector p ≠ dvmEmptyPage
      rw [Function.update_self]
      exact hne
    · have hmod : (s.curPageSector + 1) % lbaRange = s.curPageSector + 1 := by
        refine Nat.mod_eq_of_lt ?_
        simp only [dvmPageSectors, lbaRange] at haligned hcur ⊢
        omega
      simp only [accessFill, hevict, hres, ne_eq, not_true_eq_false, if_false,
        hpromote, Option.map_some, hmod]
  · have hlist₁ :=
      hlist.rebase hpre hpost (Or.inl rfl)
        (Function.update s.cache.dvmCacheData p
          (diskReadRaw s.storage rq.pdrv (s.cache.dvmCacheData p) 0
            s.curPageSector dvmPageSectors).buff)
    refine ⟨p, pre, post, _, _, rfl, hpre, hpost, hlast, rfl, ?_, ?_,
      Or.inl ⟨hres, hlist₁, rfl, ?_⟩⟩
    · rfl
    · exact ⟨rfl, rfl, rfl, rfl⟩
    simp only [accessFill, hevict, ne_eq, hres, not_false_eq_true, if_true,
      Function.update_idem]

/-- The same after a search that has not found the page: no entry holds it. -/
theorem accessFill_order
    (rq : AccessRequest) {s : AccessState n} {order : List (Fin n)}
    (hlist : ListInvariant s.cache order) (hl : LookedUp s) (hn : 0 < n)
    (hfirst : s.firstSector < lbaRange)
    (hmiss : ∀ q, s.p = some q → s.cache.baseSector q ≠ s.curPageSector) :
    ∃ p pre post c' r,
      order = pre ++ p :: post ∧
      (∀ q ∈ pre, s.cache.Used q) ∧ (∀ q ∈ post, ¬ s.cache.Used q) ∧
      (s.cache.Used p → post = []) ∧
      r = diskReadRaw s.storage rq.pdrv (s.cache.dvmCacheData p) 0
        s.curPageSector dvmPageSectors ∧
      c'.dvmCacheData = Function.update s.cache.dvmCacheData p r.buff ∧
      SameFlags s.cache c' ∧
      ((r.res ≠ .resOk ∧
        ListInvariant c' (pre ++ p :: post) ∧
        c'.baseSector =
          Function.update s.cache.baseSector p dvmEmptyPage ∧
        accessFill rq s =
          some (.inr
            ⟨(diskReadRaw r.storage rq.pdrv s.buffer 0 rq.origFirst
                rq.origCount).res,
              (diskReadRaw r.storage rq.pdrv s.buffer 0 rq.origFirst
                rq.origCount).buff,
              c',
              (diskReadRaw r.storage rq.pdrv s.buffer 0 rq.origFirst
                rq.origCount).storage⟩)) ∨
      (r.res = .resOk ∧
        ListInvariant c' (p :: (pre ++ post)) ∧
        c'.baseSector =
          Function.update s.cache.baseSector p s.curPageSector ∧
        accessFill rq s =
          some (.inl
            { s with
              cache := c'
              storage := r.storage
              p := some p
              searchBase := s.curPageSector + 1 }))) := by
  obtain ⟨p, pre, post, c', r, horder, hpre, hpost, hlast, hr, hdata, hflags, hcase⟩ :=
    accessFill_taken rq hlist hn hfirst
  refine ⟨p, pre, post, c', r, horder, hpre, hpost, hlast, hr, hdata, hflags, hcase.imp_right ?_⟩
  rintro ⟨hok, hclear, hrest⟩
  exact ⟨hok, hclear fun q hq _ => hl.no_page hmiss hq, hrest⟩

/-- The fill branch, between two iterations. -/
theorem accessFill_spec
    {rq : AccessRequest} {limit : Nat} {s : AccessState n}
    (h : LoopInv rq limit s) (hl : LookedUp s) (hn : 0 < n)
    (hpos : 0 < s.numSectors)
    (hmiss : ∀ q, s.p = some q → s.cache.baseSector q ≠ s.curPageSector) :
    ∃ p c' r,
      r = diskReadRaw s.storage rq.pdrv (s.cache.dvmCacheData p) 0
        s.curPageSector dvmPageSectors ∧
      c'.dvmCacheData = Function.update s.cache.dvmCacheData p r.buff ∧
      (∃ order, ListInvariant c' order) ∧
      SameFlags s.cache c' ∧
      ((r.res ≠ .resOk ∧
        c'.baseSector =
          Function.update s.cache.baseSector p dvmEmptyPage ∧
        accessFill rq s =
          some (.inr
            ⟨(diskReadRaw r.storage rq.pdrv s.buffer 0 rq.origFirst
                rq.origCount).res,
              (diskReadRaw r.storage rq.pdrv s.buffer 0 rq.origFirst
                rq.origCount).buff,
              c',
              (diskReadRaw r.storage rq.pdrv s.buffer 0 rq.origFirst
                rq.origCount).storage⟩)) ∨
      (r.res = .resOk ∧
        c'.baseSector =
          Function.update s.cache.baseSector p s.curPageSector ∧
        accessFill rq s =
          some (.inl
            { s with
              cache := c'
              storage := r.storage
              p := some p
              searchBase := s.curPageSector + 1 }))) := by
  obtain ⟨order, hlist⟩ := h.list
  have hrange := h.first_lt hpos
  have hlimit := h.limit_le
  obtain ⟨p, pre, post, c', r, _, _, _, _, hr, hdata, hflags, hcase⟩ :=
    accessFill_order rq hlist hl hn (by omega) hmiss
  rcases hcase with ⟨hres, hlist', hbase, hfill⟩ | ⟨hres, hlist', hbase, hfill⟩
  · exact ⟨p, c', r, hr, hdata, ⟨_, hlist'⟩, hflags, Or.inl ⟨hres, hbase, hfill⟩⟩
  · exact ⟨p, c', r, hr, hdata, ⟨_, hlist'⟩, hflags, Or.inr ⟨hres, hbase, hfill⟩⟩

/-- A page just filled is the search result of the iteration that follows. -/
theorem searchOk_after_fill
    {s : AccessState n} {c' : DvmCache n} {p : Fin n} (st : Storage)
    (hbase : c'.baseSector =
      Function.update s.cache.baseSector p s.curPageSector) :
    LookedUp
      { s with
        cache := c'
        storage := st
        p := some p
        searchBase := s.curPageSector + 1 } := by
  have hp : c'.baseSector p = s.curPageSector := by
    rw [hbase, Function.update_self]
  have haligned := s.curPage_aligned
  refine ⟨⟨?_, hp.ge, fun q _ hle => hp.le.trans hle⟩, ?_⟩
  · intro heq
    rw [← hp, heq] at haligned
    exact absurd haligned (by decide)
  · rintro q hq
    have hpq : p = q := by simpa using hq
    rw [← hpq, hp]

/-- The next cached page starts past the sector of a miss. -/
theorem LookedUp.first_lt_next
    {s : AccessState n} {order : List (Fin n)}
    (hlist : ListInvariant s.cache order)
    (hl : LookedUp s)
    {q : Fin n} (hq : s.p = some q)
    (hmiss : s.cache.baseSector q ≠ s.curPageSector) :
    s.firstSector < s.cache.baseSector q := by
  have hfound := hl.1
  rw [hq] at hfound
  have h₁ := hfound.2.1
  have h₂ := hlist.aligned q hfound.1
  have h₃ := s.curPage_aligned
  have h₄ := s.curPage_add_offset
  have h₅ := s.curPageOffset_lt
  simp only [dvmPageSectors] at *
  omega

/-- A direct transfer ends before the next cached page, or ends the request. -/
theorem directSectors_le
    {s : AccessState n} {order : List (Fin n)}
    (hlist : ListInvariant s.cache order)
    (hl : LookedUp s)
    (hmiss : ∀ q, s.p = some q → s.cache.baseSector q ≠ s.curPageSector) :
    s.directSectors ≤ s.numSectors ∧
      (∀ q, s.p = some q →
        s.firstSector + s.directSectors ≤ s.cache.baseSector q) ∧
      (s.p = none → s.directSectors = s.numSectors) := by
  refine ⟨?_, ?_, ?_⟩
  · exact min_le_left _ _
  · intro q hq
    have hlt := hl.first_lt_next hlist hq (hmiss q hq)
    have hfound := hl.1
    rw [hq] at hfound
    have hb := hlist.bounded q hfound.1
    have hdir : s.directSectors ≤ s.cache.baseSector q - s.firstSector := by
      simp only [AccessState.directSectors, hq]
      refine (min_le_right _ _).trans ?_
      refine (Nat.mod_le _ _).trans ?_
      simp only [lbaRange] at hb ⊢
      omega
    omega
  · intro hp
    simp [AccessState.directSectors, hp]

/-- With all sectors below `2 ^ 32` a direct transfer ends at the next cached page. -/
theorem directSectors_eq
    {s : AccessState n} {order : List (Fin n)}
    (hlist : ListInvariant s.cache order)
    (hl : LookedUp s) (hbelow : PagesBelow s.cache uintRange)
    {q : Fin n} (hq : s.p = some q) (hmiss : s.cache.baseSector q ≠ s.curPageSector) :
    s.directSectors = min s.numSectors (s.cache.baseSector q - s.firstSector) := by
  have hlt := hl.first_lt_next hlist hq hmiss
  have hfound := hl.1
  rw [hq] at hfound
  have hb := hbelow q hfound.1
  have hdiff :
      (s.cache.baseSector q + lbaRange - s.firstSector) % lbaRange % uintRange =
        s.cache.baseSector q - s.firstSector := by
    simp only [lbaRange, uintRange] at hb ⊢
    omega
  simp only [AccessState.directSectors, hq, hdiff]

/-- With all sectors below `2 ^ 32` a direct transfer is not empty. -/
theorem directSectors_pos
    {s : AccessState n} {order : List (Fin n)}
    (hlist : ListInvariant s.cache order)
    (hl : LookedUp s) (hpos : 0 < s.numSectors)
    (hbelow : PagesBelow s.cache uintRange)
    (hmiss : ∀ q, s.p = some q → s.cache.baseSector q ≠ s.curPageSector) :
    0 < s.directSectors := by
  cases hp : s.p with
  | none =>
      simpa [AccessState.directSectors, hp] using hpos
  | some q =>
      have hlt := hl.first_lt_next hlist hp (hmiss q hp)
      rw [directSectors_eq hlist hl hbelow hp (hmiss q hp)]
      omega

/-- A direct transfer meets no cached page. -/
theorem directSectors_gap
    {s : AccessState n} {order : List (Fin n)}
    (hlist : ListInvariant s.cache order)
    (hl : LookedUp s)
    (hmiss : ∀ q, s.p = some q → s.cache.baseSector q ≠ s.curPageSector)
    {r : Fin n} (hr : s.cache.Used r) :
    s.cache.baseSector r + dvmPageSectors ≤ s.firstSector ∨
      s.firstSector + s.directSectors ≤ s.cache.baseSector r := by
  have hne := hl.no_page hmiss hr
  have hoff := s.curPage_add_offset
  have hal := s.curPage_aligned
  have har := hlist.aligned r hr
  by_cases hle : s.curPageSector ≤ s.cache.baseSector r
  · right
    have hfound := hl.1
    cases hp : s.p with
    | none =>
        rw [hp] at hfound
        have := hfound r hr
        omega
    | some q =>
        rw [hp] at hfound
        have h₁ := (directSectors_le hlist hl hmiss).2.1 q hp
        have h₂ := hfound.2.2 r hr hle
        omega
  · left
    simp only [dvmPageSectors] at *
    omega

/-- After a direct transfer the remembered search result is still right. -/
theorem searchOk_after_direct
    {s s' : AccessState n} {order : List (Fin n)}
    (hlist : ListInvariant s.cache order)
    (hl : LookedUp s)
    (hmiss : ∀ q, s.p = some q → s.cache.baseSector q ≠ s.curPageSector)
    (hcache : s'.cache = s.cache)
    (hp : s'.p = s.p)
    (hbase : s'.searchBase = s.searchBase)
    (hfirst : s'.firstSector = s.firstSector + s.directSectors)
    (hend : s.directSectors < s.numSectors) :
    SearchOk s' := by
  intro _
  obtain ⟨hfound, hq⟩ := hl
  rw [hcache, hp, hbase]
  refine ⟨?_, hq⟩
  cases hp' : s.p with
  | none =>
      have := (directSectors_le hlist ⟨hfound, hq⟩ hmiss).2.2 hp'
      omega
  | some q =>
      rw [hp'] at hfound
      have h₁ := (directSectors_le hlist ⟨by rwa [hp'], hq⟩ hmiss).2.1 q hp'
      have h₂ := hlist.aligned q hfound.1
      have h₃ : s.curPageSector ≤ s'.curPageSector := by
        simp only [AccessState.curPageSector, dvmPageSectors, hfirst]
        omega
      have h₄ : s'.curPageSector ≤ s.cache.baseSector q := by
        simp only [AccessState.curPageSector, dvmPageSectors, hfirst] at *
        omega
      exact ⟨hfound.1, h₄, fun r hr hle => hfound.2.2 r hr (h₃.trans hle)⟩

end Dvm
end Cubiboot
