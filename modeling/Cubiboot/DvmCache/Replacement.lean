import Cubiboot.DvmCache.Termination
import Cubiboot.Foundations.LruList

/-!
# Which pages stay

The pages that are cached, in the order of the list, are those of a list of least
recently used pages (`LruServes`).  A page is used when it is filled, and when a part of
it is read, or written by a raw write that the drive accepts.

A request that does not go through the cache changes the order at most.

Results: `Caches.unique`, that the cache has one such list of pages; `Caches.promote`,
`accessHit_replaces`, `accessFill_replaces` and `accessDirect_replaces`, what becomes of
it in each branch; and `dvmCacheAccess_replaces`, by induction on the iterations, what
one request does to it.
-/

namespace Cubiboot
namespace Dvm

open FuelLoop LruList

variable {n : Nat}

/-- The first sector of the page that a sector is in. -/
def pageOf (sector : Nat) : Nat :=
  sector - sector % dvmPageSectors

/-- How many sectors of a request are in its first page. -/
def inPage (first count : Nat) : Nat :=
  min count (dvmPageSectors - first % dvmPageSectors)

/-- All of the first page is requested. -/
def WholePage (first count : Nat) : Prop :=
  first % dvmPageSectors = 0 ∧ dvmPageSectors ≤ count

instance (first count : Nat) : Decidable (WholePage first count) :=
  inferInstanceAs (Decidable (_ ∧ _))

/-- The pages after an access to the first page of a request, which is cached. -/
def accessed (first count : Nat) (pages : List Nat) : List Nat :=
  if WholePage first count then pages else touch (pageOf first) pages

/-- No page is cached in the next `d` sectors, which are all, or reach up to one. -/
structure Gap (pages : List Nat) (first count d : Nat) : Prop where
  pos : 0 < d
  le : d ≤ count
  free : ∀ page ∈ pages, page + dvmPageSectors ≤ first ∨ first + d ≤ page
  ends : d = count ∨ first + d ∈ pages

/--
What a request makes of the pages in a cache: `cached` says that it goes through it, and
`answer` whether its raw accesses succeed, one after the other.
-/
inductive LruServes (capacity : Nat) (cached isWrite : Bool) :
    (Nat → Bool) → Nat → Nat → List Nat → List Nat → Prop
  | done {answer : Nat → Bool} {first : Nat} {pages : List Nat} :
      LruServes capacity cached isWrite answer first 0 pages pages
  /-- A part of the page is read, or all of it. -/
  | read {answer : Nat → Bool} {first count : Nat} {pages pages' : List Nat}
      (hread : isWrite = false) (hcount : 0 < count) (hin : pageOf first ∈ pages)
      (rest : LruServes capacity cached isWrite answer (first + inPage first count)
        (count - inPage first count) (accessed first count pages) pages') :
      LruServes capacity cached isWrite answer first count pages pages'
  /-- It is written, and the drive accepts the raw write. -/
  | written {answer : Nat → Bool} {first count : Nat} {pages pages' : List Nat}
      (hwrite : isWrite = true) (hcount : 0 < count) (hin : pageOf first ∈ pages)
      (haccepted : answer 0 = true)
      (rest : LruServes capacity cached isWrite (fun k => answer (k + 1))
        (first + inPage first count) (count - inPage first count)
        (accessed first count pages) pages') :
      LruServes capacity cached isWrite answer first count pages pages'
  /-- The raw write is refused, and the request ends. -/
  | refused {answer : Nat → Bool} {first count : Nat} {pages : List Nat}
      (hwrite : isWrite = true) (hcount : 0 < count) (hin : pageOf first ∈ pages)
      (hrefused : answer 0 = false) :
      LruServes capacity cached isWrite answer first count pages pages
  /-- The page is filled, and is there when it is read. -/
  | filled {answer : Nat → Bool} {first count : Nat} {pages pages' : List Nat}
      (hcached : cached = true) (hcount : 0 < count) (hout : pageOf first ∉ pages)
      (hdelivered : answer 0 = true)
      (rest : LruServes capacity cached isWrite (fun k => answer (k + 1)) first count
        (fill capacity (pageOf first) pages) pages') :
      LruServes capacity cached isWrite answer first count pages pages'
  /-- The page cannot be filled, and what made room for it is gone. -/
  | unfilled {answer : Nat → Bool} {first count : Nat} {pages : List Nat}
      (hcached : cached = true) (hcount : 0 < count) (hout : pageOf first ∉ pages)
      (hfailed : answer 0 = false) :
      LruServes capacity cached isWrite answer first count pages (room capacity pages)
  /-- Sectors that are not cached go straight to the drive, or come from there. -/
  | passed {answer : Nat → Bool} {first count d : Nat} {pages pages' : List Nat}
      (hcached : cached = false) (hout : pageOf first ∉ pages) (hgap : Gap pages first count d)
      (hpassed : answer 0 = true)
      (rest : LruServes capacity cached isWrite (fun k => answer (k + 1)) (first + d)
        (count - d) pages pages') :
      LruServes capacity cached isWrite answer first count pages pages'
  | stopped {answer : Nat → Bool} {first count : Nat} {pages : List Nat}
      (hcached : cached = false) (hcount : 0 < count) (hout : pageOf first ∉ pages)
      (hfailed : answer 0 = false) :
      LruServes capacity cached isWrite answer first count pages pages

instance (c : DvmCache n) (p : Fin n) : Decidable (c.Used p) :=
  inferInstanceAs (Decidable (_ ≠ _))

/-- The pages that the entries of this list hold. -/
def pagesOf (c : DvmCache n) (order : List (Fin n)) : List Nat :=
  (order.filter fun p => c.Used p).map c.baseSector

/-- The pages in the cache, the one that was used last first. -/
def Caches (c : DvmCache n) (pages : List Nat) : Prop :=
  ∃ order, ListInvariant c order ∧ pages = pagesOf c order

section Pages

variable {c c' : DvmCache n} {order pre post : List (Fin n)} {p : Fin n} {pages : List Nat}

theorem pagesOf_append : pagesOf c (pre ++ post) = pagesOf c pre ++ pagesOf c post := by
  rw [pagesOf, List.filter_append, List.map_append]
  rfl

theorem pagesOf_cons_used (h : c.Used p) :
    pagesOf c (p :: post) = c.baseSector p :: pagesOf c post := by
  rw [pagesOf, List.filter_cons_of_pos (by simpa using h), List.map_cons]
  rfl

theorem pagesOf_cons_unused (h : ¬ c.Used p) : pagesOf c (p :: post) = pagesOf c post := by
  rw [pagesOf, List.filter_cons_of_neg (by simpa using h)]
  rfl

theorem pagesOf_used (h : ∀ q ∈ pre, c.Used q) : pagesOf c pre = pre.map c.baseSector := by
  rw [pagesOf, List.filter_eq_self.2 fun q hq => decide_eq_true (h q hq)]

theorem pagesOf_unused (h : ∀ q ∈ post, ¬ c.Used q) : pagesOf c post = [] := by
  rw [pagesOf, List.filter_eq_nil_iff.2 fun q hq => by simpa using h q hq, List.map_nil]

theorem pagesOf_congr (h : ∀ q ∈ order, c'.baseSector q = c.baseSector q) :
    pagesOf c' order = pagesOf c order := by
  have hfilter : order.filter (fun q => c'.Used q) = order.filter fun q => c.Used q :=
    List.filter_congr fun q hq => decide_eq_decide.2 (by rw [DvmCache.Used, h q hq]; rfl)
  rw [pagesOf, pagesOf, hfilter]
  exact List.map_congr_left fun q hq => h q (List.mem_of_mem_filter hq)

/-- The pages are those of the entries that are used. -/
theorem Caches.mem_iff (h : Caches c pages) {page : Nat} :
    page ∈ pages ↔ ∃ p, c.Used p ∧ c.baseSector p = page := by
  obtain ⟨order, hlist, rfl⟩ := h
  simp only [pagesOf, List.mem_map, List.mem_filter, hlist.complete, true_and,
    decide_eq_true_eq]

theorem Caches.nodup (h : Caches c pages) : pages.Nodup := by
  obtain ⟨order, hlist, rfl⟩ := h
  refine List.Nodup.map_on (fun p hp q hq heq => ?_) (hlist.toListOrder.nodup.filter _)
  exact hlist.distinct p q (of_decide_eq_true (List.mem_filter.1 hp).2) heq

theorem Caches.length_le (h : Caches c pages) : pages.length ≤ n := by
  obtain ⟨order, hlist, rfl⟩ := h
  rw [pagesOf, List.length_map]
  exact (List.length_filter_le _ _).trans hlist.length_eq.le

theorem Caches.list (h : Caches c pages) : ∃ order, ListInvariant c order := by
  obtain ⟨order, hlist, _⟩ := h
  exact ⟨order, hlist⟩

theorem Caches.below_iff (h : Caches c pages) {limit : Nat} :
    PagesBelow c limit ↔ ∀ page ∈ pages, page < limit := by
  constructor
  · intro hbelow page hpage
    obtain ⟨p, hp, rfl⟩ := h.mem_iff.1 hpage
    exact hbelow p hp
  · intro hbelow p hp
    exact hbelow _ (h.mem_iff.2 ⟨p, hp, rfl⟩)

/-- The list of the cache says which pages there are, in which order. -/
theorem Caches.unique {pages' : List Nat} (h : Caches c pages) (h' : Caches c pages') :
    pages = pages' := by
  obtain ⟨order, hlist, rfl⟩ := h
  obtain ⟨order', hlist', rfl⟩ := h'
  rw [hlist.toListOrder.segment.unique hlist'.toListOrder.segment
    (hlist.toListOrder.head.symm.trans hlist'.toListOrder.head)]

/-- A reset leaves no page. -/
theorem caches_reset (c : DvmCache n) : Caches (dvmCacheReset c) [] :=
  ⟨_, dvmCacheReset_spec c, (pagesOf_unused fun q _ => dvmCacheReset_unused c q).symm⟩

/-- The contents of the pages do not matter. -/
theorem Caches.withPages (h : Caches c pages) (d : Fin n → Nat → SectorData) :
    Caches { c with dvmCacheData := d } pages := by
  obtain ⟨order, hlist, hpages⟩ := h
  exact ⟨order, hlist.withPages d c.dvmMagic, hpages⟩

/-- A promotion moves a page to the front. -/
theorem Caches.promote (h : Caches c pages) (hp : c.Used p) :
    ∃ c', dvmCachePromote c p = some c' ∧ Caches c' (touch (c.baseSector p) pages) ∧
      SameContents c c' := by
  obtain ⟨order, hlist, rfl⟩ := h
  obtain ⟨pre, post, rfl⟩ := List.append_of_mem (hlist.complete p)
  obtain ⟨c', hpromote, hlist', hsame⟩ := hlist.promote_front hp
  have hnew : c.baseSector p ∉ pagesOf c pre := by
    intro hmem
    simp only [pagesOf, List.mem_map, List.mem_filter] at hmem
    obtain ⟨q, ⟨hq, hused⟩, heq⟩ := hmem
    obtain rfl := hlist.distinct q p (of_decide_eq_true hused) heq
    have hnodup := (List.perm_middle.nodup_iff).1 hlist.toListOrder.nodup
    exact (List.nodup_cons.1 hnodup).1 (List.mem_append_left _ hq)
  refine ⟨c', hpromote, ⟨_, hlist', ?_⟩, hsame⟩
  rw [pagesOf_append, pagesOf_cons_used hp, touch_append hnew,
    pagesOf_congr fun q _ => congrFun hsame.base q, pagesOf_cons_used hp, pagesOf_append]

/-- The pages in front of the entry that is taken for a new one: room has been made. -/
theorem pagesOf_room (h : ListInvariant c (pre ++ p :: post)) (hpre : ∀ q ∈ pre, c.Used q)
    (hpost : ∀ q ∈ post, ¬ c.Used q) (hlast : c.Used p → post = []) :
    pagesOf c pre = room n (pagesOf c (pre ++ p :: post)) := by
  have hlength := h.length_eq
  rw [List.length_append, List.length_cons] at hlength
  by_cases hp : c.Used p
  · obtain rfl := hlast hp
    rw [List.length_nil] at hlength
    rw [pagesOf_append, pagesOf_cons_used hp, pagesOf_unused hpost, room_of_full,
      List.dropLast_concat]
    rw [pagesOf_used hpre, List.length_append, List.length_map, List.length_singleton]
    omega
  · rw [pagesOf_append, pagesOf_cons_unused hp, pagesOf_unused hpost, List.append_nil,
      room_of_lt]
    rw [pagesOf_used hpre, List.length_map]
    omega

end Pages

/-- The driver delivers. -/
def ReadOutcome.delivers : ReadOutcome → Bool
  | .delivered => true
  | .failed _ => false

/-- The answers to the raw accesses of a request, from now on. -/
def rawAnswer (st : Storage) (pdrv : Nat) (isWrite : Bool) (k : Nat) : Bool :=
  diskIsKnown pdrv &&
    if isWrite then st.writeOutcome (st.writes + k) else (st.readOutcome (st.reads + k)).delivers

section Answers

variable {st : Storage} {pdrv : Nat} {buff : Nat → SectorData} {place sector count : Nat}

theorem diskReadRaw_answer :
    (diskReadRaw st pdrv buff place sector count).res = .resOk ↔
      rawAnswer st pdrv false 0 = true := by
  rw [diskReadRaw, rawAnswer]
  cases diskIsKnown pdrv with
  | false => simp
  | true =>
      cases st.readOutcome st.reads <;> simp [ReadOutcome.delivers]

theorem diskReadRaw_later (h : rawAnswer st pdrv false 0 = true) (k : Nat) :
    rawAnswer (diskReadRaw st pdrv buff place sector count).storage pdrv false k =
      rawAnswer st pdrv false (k + 1) := by
  have hknown : diskIsKnown pdrv = true := (Bool.and_eq_true_iff.1 h).1
  rw [diskReadRaw, if_pos hknown]
  cases st.readOutcome st.reads <;> simp [rawAnswer, Nat.add_assoc, Nat.add_comm 1 k]

theorem diskWriteRaw_answer :
    (diskWriteRaw st pdrv buff place sector count).res = .resOk ↔
      rawAnswer st pdrv true 0 = true := by
  rw [diskWriteRaw, rawAnswer]
  cases diskIsKnown pdrv with
  | false => simp
  | true => cases st.writeOutcome st.writes <;> simp

theorem diskWriteRaw_later (h : rawAnswer st pdrv true 0 = true) (k : Nat) :
    rawAnswer (diskWriteRaw st pdrv buff place sector count).storage pdrv true k =
      rawAnswer st pdrv true (k + 1) := by
  have hknown : diskIsKnown pdrv = true := (Bool.and_eq_true_iff.1 h).1
  rw [diskWriteRaw, if_pos hknown]
  cases st.writeOutcome st.writes <;> simp [rawAnswer, Nat.add_assoc, Nat.add_comm 1 k]

end Answers

/-- What is left of the request, and the pages it leaves. -/
def AccessState.Serves
    (s : AccessState n) (rq : AccessRequest) (pages pages' : List Nat) : Prop :=
  LruServes n rq.isCached rq.isWrite (rawAnswer s.storage rq.pdrv rq.isWrite) s.firstSector
    s.numSectors pages pages'

/-- An iteration, seen from the pages. -/
inductive Replaces
    (rq : AccessRequest) (limit : Nat) (s : AccessState n) (pages : List Nat) :
    AccessState n ⊕ AccessResult n → Prop
  | goesOn {s' : AccessState n} {pages' : List Nat}
      (loop : LoopInv rq limit s') (caches : Caches s'.cache pages')
      (flags : SameFlags s.cache s'.cache)
      (less : s'.numSectors < s.numSectors ∨
        s'.numSectors = s.numSectors ∧ hitPending s' = 0 ∧ pageOf s.firstSector ∉ pages)
      (serves : ∀ final, s'.Serves rq pages' final → s.Serves rq pages final) :
      Replaces rq limit s pages (.inl s')
  | returns {r : AccessResult n} {final : List Nat}
      (caches : Caches r.cache final) (flags : SameFlags s.cache r.cache)
      (serves : s.Serves rq pages final) :
      Replaces rq limit s pages (.inr r)

section Iteration

variable {rq : AccessRequest} {limit : Nat} {s : AccessState n} {pages : List Nat}

theorem AccessState.isWhole_iff : s.isWhole = true ↔ WholePage s.firstSector s.numSectors := by
  simp only [AccessState.isWhole, AccessState.curPageOffset, AccessState.curSectors, WholePage,
    Bool.and_eq_true, beq_iff_eq, dvmPageSectors]
  omega

/-- The promotion at the end of a hit. -/
theorem Caches.promoteHit (h : Caches s.cache pages) {q : Fin n} (hq : s.cache.Used q)
    (hhit : s.cache.baseSector q = s.curPageSector) :
    ∃ c', s.promoteHit q = some { s with cache := c' } ∧
      Caches c' (accessed s.firstSector s.numSectors pages) ∧ SameContents s.cache c' := by
  by_cases hwhole : WholePage s.firstSector s.numSectors
  · rw [accessed, if_pos hwhole]
    exact ⟨s.cache, if_pos (s.isWhole_iff.2 hwhole), h, SameContents.refl _⟩
  · obtain ⟨c', hpromote, hcaches, hsame⟩ := h.promote hq
    rw [hhit] at hcaches
    rw [accessed, if_neg hwhole]
    refine ⟨c', ?_, hcaches, hsame⟩
    rw [AccessState.promoteHit, if_neg fun hw => hwhole (s.isWhole_iff.1 hw), hpromote]
    rfl

/-- Within a request below `2 ^ 32` the sector number does not wrap. -/
theorem LoopInv.first_add (h : LoopInv rq limit s) (hlimit : limit ≤ uintRange)
    (hpos : 0 < s.numSectors) {k : Nat} (hk : k ≤ s.numSectors) :
    (s.firstSector + k) % lbaRange = s.firstSector + k := by
  have hlt := h.first_lt hpos
  refine Nat.mod_eq_of_lt ?_
  simp only [uintRange, lbaRange] at *
  omega

/-- A hit that goes on, whatever it has done to the buffer, the page and the drive. -/
theorem LoopInv.after_hit (h : LoopInv rq limit s) (hl : LookedUp s) (hpos : 0 < s.numSectors)
    {q : Fin n} (hq : s.p = some q) (hhit : s.cache.baseSector q = s.curPageSector)
    {c' : DvmCache n} (hlist : ∃ order, ListInvariant c' order)
    (hbase : c'.baseSector = s.cache.baseSector) (st : Storage) (buffer : Nat → SectorData) :
    LoopInv rq limit
      ({ s with cache := c', storage := st, buffer := buffer }.advance s.curSectors) := by
  refine h.advance hpos s.curSectors_le.2 hlist (fun p hp => ?_) rfl rfl rfl fun hp hf => ?_
  · show c'.baseSector p < limit
    rw [hbase]
    refine h.below p ?_
    rw [DvmCache.Used, ← hbase]
    exact hp
  · refine searchOk_after_hit hl hq hhit rfl hf ?_
    simp only [AccessState.advance] at hp
    omega

theorem accessHit_replaces (h : LoopInv rq limit s) (hlimit : limit ≤ uintRange)
    (hc : Caches s.cache pages) (hl : LookedUp s) (hpos : 0 < s.numSectors) {q : Fin n}
    (hq : s.p = some q) (hhit : s.cache.baseSector q = s.curPageSector) :
    ∃ out, accessHit rq s q = some out ∧ Replaces rq limit s pages out := by
  have hused : s.cache.Used q := by
    have hfound := hl.1
    rw [hq] at hfound
    exact hfound.1
  have hin : pageOf s.firstSector ∈ pages := hc.mem_iff.2 ⟨q, hused, hhit⟩
  have hless := s.curSectors_pos hpos
  have hfirst : (s.firstSector + inPage s.firstSector s.numSectors) % lbaRange =
      s.firstSector + inPage s.firstSector s.numSectors :=
    h.first_add hlimit hpos s.curSectors_le.2
  cases hw : rq.isWrite with
  | false =>
      obtain ⟨buffer, hbuffer⟩ : ∃ b, b =
          CopyRange.copyRange s.buffer s.done s.curSectors
            (fun i => s.cache.dvmCacheData q (s.curPageOffset + i)) := ⟨_, rfl⟩
      have hc₁ : Caches { s with buffer := buffer }.cache pages := hc
      obtain ⟨c', hpromote, hcaches, hsame⟩ := hc₁.promoteHit hused hhit
      refine ⟨.inl ({ s with buffer := buffer, cache := c' }.advance s.curSectors), ?_,
        .goesOn (h.after_hit hl hpos hq hhit hcaches.list hsame.base s.storage buffer) hcaches
          hsame.flags (Or.inl ?_) fun final hrest => ?_⟩
      · simp only [accessHit, hw, Bool.false_eq_true, if_false, ← hbuffer, hpromote,
          Option.map_some]
      · simp only [AccessState.advance]
        omega
      · refine .read hw hpos hin ?_
        rw [← hfirst]
        exact hrest
  | true =>
      obtain ⟨c₁, hc₁⟩ : ∃ c₁, c₁ =
          { s.cache with
            dvmCacheData := Function.update s.cache.dvmCacheData q
              (CopyRange.copyRange (s.cache.dvmCacheData q) s.curPageOffset s.curSectors
                (fun i => s.buffer (s.done + i))) } := ⟨_, rfl⟩
      have hpages : Caches c₁ pages := by
        rw [hc₁]
        exact hc.withPages _
      have hbase : c₁.baseSector = s.cache.baseSector := by
        rw [hc₁]
      have hflags : SameFlags s.cache c₁ := by
        rw [hc₁]
        exact ⟨rfl, rfl, rfl, rfl⟩
      obtain ⟨w, hwrite⟩ : ∃ w, w =
          diskWriteRaw s.storage rq.pdrv s.buffer s.done s.firstSector s.curSectors := ⟨_, rfl⟩
      have hrun : accessHit rq s q =
          if w.res ≠ .resOk then
            some (.inr ⟨.resError, s.buffer, c₁, w.storage⟩)
          else
            ({ s with cache := c₁, storage := w.storage }.promoteHit q).map
              fun s' : AccessState n => .inl (s'.advance s.curSectors) := by
        rw [accessHit, if_pos hw, hwrite, hc₁]
      have hanswer : w.res = .resOk ↔ rawAnswer s.storage rq.pdrv rq.isWrite 0 = true := by
        rw [hwrite, hw]
        exact diskWriteRaw_answer
      by_cases hok : w.res = .resOk
      · have haccepted := hanswer.1 hok
        have hlater : rawAnswer w.storage rq.pdrv rq.isWrite =
            fun k => rawAnswer s.storage rq.pdrv rq.isWrite (k + 1) := by
          rw [hw] at haccepted ⊢
          rw [hwrite]
          exact funext (diskWriteRaw_later haccepted)
        have hc₂ : Caches { s with cache := c₁, storage := w.storage }.cache pages := hpages
        obtain ⟨c', hpromote, hcaches, hsame⟩ := hc₂.promoteHit
          (by rw [DvmCache.Used, hbase]; exact hused) ((congrFun hbase q).trans hhit)
        refine ⟨.inl ({ s with cache := c', storage := w.storage }.advance s.curSectors), ?_,
          .goesOn (h.after_hit hl hpos hq hhit hcaches.list (hsame.base.trans hbase) w.storage
            s.buffer) hcaches (hflags.trans hsame.flags) (Or.inl ?_) fun final hrest => ?_⟩
        · rw [hrun, if_neg (not_not.2 hok), hpromote, Option.map_some]
        · simp only [AccessState.advance]
          omega
        · refine .written hw hpos hin haccepted ?_
          rw [← hfirst, ← hlater]
          exact hrest
      · refine ⟨_, hrun.trans (if_pos hok), .returns hpages hflags (.refused hw hpos hin ?_)⟩
        exact Bool.eq_false_iff.2 fun haccepted => hok (hanswer.2 haccepted)

/-- No page is cached where an iteration misses. -/
theorem LookedUp.not_mem (hl : LookedUp s) (hc : Caches s.cache pages)
    (hmiss : ∀ q, s.p = some q → s.cache.baseSector q ≠ s.curPageSector) :
    pageOf s.firstSector ∉ pages := by
  intro hin
  obtain ⟨q, hq, hbase⟩ := hc.mem_iff.1 hin
  exact hl.no_page hmiss hq hbase

theorem accessFill_replaces (h : LoopInv rq limit s) (hlimit : limit ≤ uintRange)
    (hc : Caches s.cache pages) (hl : LookedUp s) (hn : 0 < n) (hpos : 0 < s.numSectors)
    (hmiss : ∀ q, s.p = some q → s.cache.baseSector q ≠ s.curPageSector)
    (hcached : rq.isCached = true) :
    ∃ out, accessFill rq s = some out ∧ Replaces rq limit s pages out := by
  have hread : rq.isWrite = false := by
    simp only [AccessRequest.isCached, Bool.and_eq_true, Bool.not_eq_true'] at hcached
    exact hcached.1
  have hout := hl.not_mem hc hmiss
  have hlt := h.first_lt hpos
  have hbelow := hc.below_iff.1 h.below
  have hstart : s.firstSector < lbaRange := by
    simp only [uintRange, lbaRange] at *
    omega
  obtain ⟨order, hlist, hpages⟩ := hc
  obtain ⟨p, pre, post, c', r, rfl, hpre, hpost, hlast, hr, hdata, hflags, hcase⟩ :=
    accessFill_order rq hlist hl hn hstart hmiss
  have hroom := pagesOf_room hlist hpre hpost hlast
  rw [← hpages] at hroom
  have hanswer : r.res = .resOk ↔ rawAnswer s.storage rq.pdrv rq.isWrite 0 = true := by
    rw [hr, hread]
    exact diskReadRaw_answer
  have hnodup := (List.perm_middle.nodup_iff).1 hlist.toListOrder.nodup
  have hp : p ∉ pre ++ post := (List.nodup_cons.1 hnodup).1
  -- The other entries hold the pages that they held.
  have hkept : ∀ b, c'.baseSector = Function.update s.cache.baseSector p b →
      pagesOf c' pre = room n pages ∧ pagesOf c' post = [] := by
    intro b hbase
    have hother : ∀ q ∈ pre ++ post, c'.baseSector q = s.cache.baseSector q := by
      intro q hq
      rw [hbase, Function.update_of_ne]
      rintro rfl
      exact hp hq
    constructor
    · rw [← hroom]
      exact pagesOf_congr fun q hq => hother q (List.mem_append_left _ hq)
    · rw [pagesOf_congr fun q hq => hother q (List.mem_append_right _ hq)]
      exact pagesOf_unused hpost
  rcases hcase with ⟨hres, hlist', hbase, hfill⟩ | ⟨hres, hlist', hbase, hfill⟩
  · have hunused : ¬ c'.Used p := by
      rw [DvmCache.Used, hbase, Function.update_self]
      exact not_not.2 rfl
    obtain ⟨hbefore, hafter⟩ := hkept _ hbase
    have hcaches : Caches c' (room n pages) := by
      refine ⟨_, hlist', ?_⟩
      rw [pagesOf_append, pagesOf_cons_unused hunused, hbefore, hafter, List.append_nil]
    refine ⟨_, hfill, .returns hcaches hflags (.unfilled hcached hpos hout ?_)⟩
    exact Bool.eq_false_iff.2 fun hdelivered => hres (hanswer.2 hdelivered)
  · have hbasep : c'.baseSector p = s.curPageSector := by
      rw [hbase, Function.update_self]
    have hlooked := searchOk_after_fill r.storage hbase
    obtain ⟨hbefore, hafter⟩ := hkept _ hbase
    have hused : c'.Used p := hlooked.1.1
    have hcaches : Caches c' (fill n (pageOf s.firstSector) pages) := by
      refine ⟨_, hlist', ?_⟩
      rw [pagesOf_cons_used hused, pagesOf_append, hbefore, hafter, List.append_nil, hbasep]
      rfl
    have hdelivered := hanswer.1 hres
    have hlater : rawAnswer r.storage rq.pdrv rq.isWrite =
        fun k => rawAnswer s.storage rq.pdrv rq.isWrite (k + 1) := by
      rw [hread] at hdelivered ⊢
      rw [hr]
      exact funext (diskReadRaw_later hdelivered)
    refine ⟨_, hfill, .goesOn ?_ hcaches hflags (Or.inr ⟨rfl, ?_, hout⟩) fun final hrest => ?_⟩
    · refine
        { list := ⟨_, hlist'⟩
          below := hcaches.below_iff.2 fun page hpage => ?_
          count := h.count
          place := h.place
          range := h.range
          limit_le := h.limit_le
          search := fun _ _ => hlooked }
      rcases mem_fill hpage with rfl | hold
      · have hle : pageOf s.firstSector ≤ s.firstSector := Nat.sub_le _ _
        omega
      · exact hbelow page hold
    · simp only [hitPending]
      exact if_pos ⟨hbasep, Nat.lt_succ_self _⟩
    · refine .filled hcached hpos hout hdelivered ?_
      rw [← hlater]
      exact hrest

/-- A direct transfer of what is not cached. -/
theorem gap_of_miss (h : LoopInv rq limit s) (hlimit : limit ≤ uintRange)
    (hc : Caches s.cache pages) (hl : LookedUp s) (hpos : 0 < s.numSectors)
    (hmiss : ∀ q, s.p = some q → s.cache.baseSector q ≠ s.curPageSector) :
    Gap pages s.firstSector s.numSectors s.directSectors := by
  obtain ⟨order, hlist⟩ := hc.list
  have hbelow : PagesBelow s.cache uintRange := fun p hp => (h.below p hp).trans_le hlimit
  have hdir := directSectors_le hlist hl hmiss
  refine ⟨directSectors_pos hlist hl hpos hbelow hmiss, hdir.1, fun page hpage => ?_, ?_⟩
  · obtain ⟨q, hq, rfl⟩ := hc.mem_iff.1 hpage
    exact directSectors_gap hlist hl hmiss hq
  · cases hp : s.p with
    | none =>
        exact Or.inl (hdir.2.2 hp)
    | some q =>
        have hfound := hl.1
        rw [hp] at hfound
        have hlt := hl.first_lt_next hlist hp (hmiss q hp)
        have hq := hc.mem_iff.2 ⟨q, hfound.1, rfl⟩
        rw [directSectors_eq hlist hl hbelow hp (hmiss q hp)]
        rcases Nat.le_total s.numSectors (s.cache.baseSector q - s.firstSector) with hall | hnext
        · exact Or.inl (Nat.min_eq_left hall)
        · rw [Nat.min_eq_right hnext, Nat.add_sub_cancel' hlt.le]
          exact Or.inr hq

theorem accessDirect_replaces (h : LoopInv rq limit s) (hlimit : limit ≤ uintRange)
    (hc : Caches s.cache pages) (hl : LookedUp s) (hpos : 0 < s.numSectors)
    (hmiss : ∀ q, s.p = some q → s.cache.baseSector q ≠ s.curPageSector)
    (hcached : rq.isCached = false) :
    ∃ out, accessDirect rq s = some out ∧ Replaces rq limit s pages out := by
  have hout := hl.not_mem hc hmiss
  have hgap := gap_of_miss h hlimit hc hl hpos hmiss
  have hfirst := h.first_add hlimit hpos hgap.le
  obtain ⟨order, hlist⟩ := hc.list
  -- The rest of the request, when the drive has answered.
  have hgoes : ∀ (st : Storage) (buffer : Nat → SectorData),
      rawAnswer s.storage rq.pdrv rq.isWrite 0 = true →
      rawAnswer st rq.pdrv rq.isWrite =
        (fun k => rawAnswer s.storage rq.pdrv rq.isWrite (k + 1)) →
      Replaces rq limit s pages
        (.inl ({ s with storage := st, buffer := buffer }.advance s.directSectors)) := by
    intro st buffer hpassed hlater
    refine .goesOn ?_ hc (SameFlags.refl _) (Or.inl ?_) fun final hrest => ?_
    · refine h.advance hpos hgap.le ⟨order, hlist⟩ h.below rfl rfl rfl fun hp hf => ?_
      refine searchOk_after_direct hlist hl hmiss rfl rfl rfl hf ?_
      simp only [AccessState.advance] at hp
      omega
    · have hmoves := hgap.pos
      simp only [AccessState.advance]
      omega
    · refine .passed hcached hout hgap hpassed ?_
      rw [← hfirst, ← hlater]
      exact hrest
  have hstops : rawAnswer s.storage rq.pdrv rq.isWrite 0 ≠ true →
      s.Serves rq pages pages := fun hfailed =>
    .stopped hcached hpos hout (Bool.eq_false_iff.2 hfailed)
  cases hw : rq.isWrite with
  | true =>
      obtain ⟨w, hwrite⟩ : ∃ w, w =
          diskWriteRaw s.storage rq.pdrv s.buffer s.done s.firstSector s.directSectors := ⟨_, rfl⟩
      have hanswer : w.res = .resOk ↔ rawAnswer s.storage rq.pdrv rq.isWrite 0 = true := by
        rw [hwrite, hw]
        exact diskWriteRaw_answer
      rw [accessDirect, if_pos hw, ← hwrite]
      by_cases hok : w.res = .resOk
      · have hpassed := hanswer.1 hok
        refine ⟨_, if_neg (not_not.2 hok), hgoes w.storage s.buffer hpassed ?_⟩
        rw [hw] at hpassed ⊢
        rw [hwrite]
        exact funext (diskWriteRaw_later hpassed)
      · exact ⟨_, if_pos hok, .returns hc (SameFlags.refl _)
          (hstops fun hpassed => hok (hanswer.2 hpassed))⟩
  | false =>
      obtain ⟨r, hread⟩ : ∃ r, r =
          diskReadRaw s.storage rq.pdrv s.buffer s.done s.firstSector s.directSectors := ⟨_, rfl⟩
      have hanswer : r.res = .resOk ↔ rawAnswer s.storage rq.pdrv rq.isWrite 0 = true := by
        rw [hread, hw]
        exact diskReadRaw_answer
      have hbranch : ¬ rq.isWrite = true := by
        rw [hw]
        decide
      rw [accessDirect, if_neg hbranch, ← hread]
      by_cases hok : r.res = .resOk
      · have hpassed := hanswer.1 hok
        refine ⟨_, if_neg (not_not.2 hok), hgoes r.storage r.buff hpassed ?_⟩
        rw [hw] at hpassed ⊢
        rw [hread]
        exact funext (diskReadRaw_later hpassed)
      · exact ⟨_, if_pos hok, .returns hc (SameFlags.refl _)
          (hstops fun hpassed => hok (hanswer.2 hpassed))⟩

/-- One iteration keeps the pages as a list of least recently used ones is kept. -/
theorem accessLoop_replaces (h : LoopInv rq limit s) (hlimit : limit ≤ uintRange)
    (hc : Caches s.cache pages) (hn : 0 < n) (hpos : 0 < s.numSectors) :
    ∃ out, accessLoop rq s = some out ∧ Replaces rq limit s pages out ∧
      ∀ s', out = .inl s' → accessMeasure s' < accessMeasure s := by
  obtain ⟨p, searchBase, hlookup, hl⟩ := lookup_spec h hpos
  have h₁ := h.lookup hl
  obtain ⟨s₁, hs₁⟩ : ∃ s₁, s₁ = { s with p := p, searchBase := searchBase } := ⟨_, rfl⟩
  have hbranch : ∃ out, accessBranch rq s₁ = some out ∧ Replaces rq limit s₁ pages out := by
    have hc₁ : Caches s₁.cache pages := by
      rw [hs₁]
      exact hc
    have hpos₁ : 0 < s₁.numSectors := by
      rw [hs₁]
      exact hpos
    rw [← hs₁] at h₁ hl
    rcases accessBranch_cases rq s₁ with ⟨q, hq, hbase, hbranch⟩ | ⟨hmiss, hbranch⟩
    · rw [hbranch]
      exact accessHit_replaces h₁ hlimit hc₁ hl hpos₁ hq hbase
    · cases hcached : rq.isCached with
      | true =>
          rw [hbranch, accessMiss_cached hcached]
          exact accessFill_replaces h₁ hlimit hc₁ hl hn hpos₁ hmiss hcached
      | false =>
          rw [hbranch, accessMiss_straight hcached]
          exact accessDirect_replaces h₁ hlimit hc₁ hl hpos₁ hmiss hcached
  obtain ⟨out, hout, hreplaces⟩ := hbranch
  refine ⟨out, ?_, ?_, ?_⟩
  · rw [accessLoop_eq hpos hlookup, ← hs₁, hout]
  · rw [hs₁] at hreplaces
    cases hreplaces with
    | goesOn hloop hcaches hflags hless hserves => exact .goesOn hloop hcaches hflags hless hserves
    | returns hcaches hflags hserves => exact .returns hcaches hflags hserves
  · rintro s' rfl
    rw [hs₁] at hreplaces
    cases hreplaces with
    | goesOn _ _ _ hless _ =>
        rcases hless with hfewer | ⟨hsame, hpending, hnot⟩
        · exact accessMeasure_of_lt hfewer
        · have hmissed := hitPending_of_miss hlookup fun q hq hbase => by
            have hfound := hl.1
            rw [hq] at hfound
            exact hnot (hc.mem_iff.2 ⟨q, hfound.1, hbase⟩)
          have heq : s'.numSectors = s.numSectors := hsame
          rw [accessMeasure, accessMeasure, hpending, hmissed, heq]
          exact Nat.lt_succ_self _

end Iteration

section Request

variable {rq : AccessRequest} {limit : Nat} {c : DvmCache n} {pages : List Nat}

/-- A request returns, and leaves the pages that it should. -/
theorem dvmCacheAccess_replaces (hc : Caches c pages) (hbelow : PagesBelow c limit)
    (hrange : rq.origFirst + rq.origCount ≤ limit) (hlimit : limit ≤ uintRange) (hn : 0 < n)
    (st : Storage) (buffer : Nat → SectorData) :
    ∃ fuel, ∃ r : AccessResult n, dvmCacheAccess fuel rq c st buffer = some r ∧
      ∃ final, Caches r.cache final ∧ SameFlags c r.cache ∧
        (accessStart rq c st buffer).Serves rq pages final := by
  have hstart : LoopInv rq limit (accessStart rq c st buffer) :=
    { list := hc.list
      below := hbelow
      count := Nat.zero_add _
      place := fun _ => rfl
      range := hrange
      limit_le := by
        simp only [uintRange, lbaRange] at *
        omega
      search := fun _ hlt => absurd hlt (Nat.not_lt_zero _) }
  refine ⟨accessMeasure (accessStart rq c st buffer) + 1, run_meets
    (fun s : AccessState n => LoopInv rq limit s ∧ SameFlags c s.cache ∧
      ∃ pages₁, Caches s.cache pages₁ ∧ ∀ final, s.Serves rq pages₁ final →
        (accessStart rq c st buffer).Serves rq pages final)
    (fun r : AccessResult n => ∃ final, Caches r.cache final ∧ SameFlags c r.cache ∧
      (accessStart rq c st buffer).Serves rq pages final)
    accessMeasure ?_ ⟨hstart, SameFlags.refl c, pages, hc, fun _ h => h⟩ (Nat.lt_succ_self _)⟩
  rintro s ⟨hloop, hflags, pages₁, hcaches, hserves⟩
  by_cases hpos : 0 < s.numSectors
  · obtain ⟨out, hout, hreplaces, hless⟩ :=
      accessLoop_replaces hloop hlimit hcaches hn hpos
    cases hreplaces with
    | goesOn hloop' hcaches' hflags' _ hserves' =>
        exact Or.inr ⟨_, hout, ⟨hloop', hflags.trans hflags', _, hcaches',
          fun final hfinal => hserves final (hserves' final hfinal)⟩, hless _ rfl⟩
    | returns hcaches' hflags' hserves' =>
        exact Or.inl ⟨_, hout, _, hcaches', hflags.trans hflags', hserves _ hserves'⟩
  · refine Or.inl ⟨_, accessLoop_end hpos, pages₁, hcaches, hflags, hserves pages₁ ?_⟩
    have hzero : s.numSectors = 0 := by omega
    rw [AccessState.Serves, hzero]
    exact .done

end Request

section Lists

variable {capacity first count : Nat} {cached isWrite : Bool} {answer : Nat → Bool}
variable {pages pages' : List Nat}

theorem accessed_perm (hin : pageOf first ∈ pages) : (accessed first count pages).Perm pages := by
  rw [accessed]
  split
  · exact List.Perm.refl _
  · exact touch_perm hin

/-- A page that is there was, or is one of the request. -/
theorem LruServes.mem (h : LruServes capacity cached isWrite answer first count pages pages')
    {page : Nat} (hpage : page ∈ pages') : page ∈ pages ∨ page < first + count := by
  induction h with
  | done => exact Or.inl hpage
  | @read _ first count _ _ _ _ hin _ ih =>
      rcases ih hpage with hold | hnew
      · exact Or.inl ((accessed_perm hin).mem_iff.1 hold)
      · have hle : inPage first count ≤ count := Nat.min_le_left _ _
        exact Or.inr (by omega)
  | @written _ first count _ _ _ _ hin _ _ ih =>
      rcases ih hpage with hold | hnew
      · exact Or.inl ((accessed_perm hin).mem_iff.1 hold)
      · have hle : inPage first count ≤ count := Nat.min_le_left _ _
        exact Or.inr (by omega)
  | refused => exact Or.inl hpage
  | @filled _ first count _ _ _ hcount _ _ _ ih =>
      rcases ih hpage with hold | hnew
      · rcases mem_fill hold with rfl | hold
        · have hle : pageOf first ≤ first := Nat.sub_le _ _
          exact Or.inr (by omega)
        · exact Or.inl hold
      · exact Or.inr hnew
  | unfilled => exact Or.inl (room_sublist.subset hpage)
  | passed _ _ hgap _ _ ih =>
      have hle := hgap.le
      exact (ih hpage).imp_right fun hnew => by omega
  | stopped => exact Or.inl hpage

/-- A request that does not go through the cache adds no page, and removes none. -/
theorem LruServes.perm (h : LruServes capacity cached isWrite answer first count pages pages')
    (hcached : cached = false) : pages'.Perm pages := by
  induction h with
  | done => exact List.Perm.refl _
  | read _ _ hin _ ih => exact ih.trans (accessed_perm hin)
  | written _ _ hin _ _ ih => exact ih.trans (accessed_perm hin)
  | refused => exact List.Perm.refl _
  | filled hfills => exact absurd (hcached.symm.trans hfills) Bool.false_ne_true
  | unfilled hfills => exact absurd (hcached.symm.trans hfills) Bool.false_ne_true
  | passed _ _ _ _ _ ih => exact ih
  | stopped => exact List.Perm.refl _

end Lists

end Dvm
end Cubiboot
