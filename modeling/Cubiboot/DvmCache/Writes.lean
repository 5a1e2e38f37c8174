import Cubiboot.DvmCache.Reads

/-!
# Write requests

A write request is cut into pieces, one raw write each: a piece lies in a cached
page or reaches up to the next one.  The cut depends on the base sectors alone
(`nextPiece`), and no iteration of a write changes those.  `accessStep_write`
describes one iteration by its piece, whether the raw write succeeds or fails.

Results: `nextPiece_hit` and `nextPiece_miss`, the piece that comes next;
`accessStep_write`, an iteration; `dvmCacheAccess_write`, what a write leaves behind
when nothing is refused; `dvmCacheAccess_write_returns`, that it returns in any case.
-/

namespace Cubiboot
namespace Dvm

open CopyRange

variable {n : Nat}

/-- Writing the part of a page that is cached, to the page and to the drive. -/
theorem PagesMatch.write_page
    {c : DvmCache n} {st st' : Storage} {pdrv : Nat}
    {order : List (Fin n)} {q : Fin n} {off len : Nat}
    {src : Nat → SectorData}
    (h : PagesMatch c st pdrv)
    (hlist : ListInvariant c order)
    (hq : c.Used q) (hlen : off + len ≤ dvmPageSectors)
    (hst : st'.sectors = Function.update st.sectors pdrv
      (copyRange (st.sectors pdrv) (c.baseSector q + off) len src)) :
    PagesMatch
      { c with
        dvmCacheData := Function.update c.dvmCacheData q
          (copyRange (c.dvmCacheData q) off len src) }
      st' pdrv := by
  intro p hp i hi
  have hp' : c.Used p := hp
  have hpage := h p hp' i hi
  show Function.update c.dvmCacheData q _ p i =
    st'.sectors pdrv (c.baseSector p + i)
  rw [hst, Function.update_self]
  by_cases hpq : p = q
  · rw [hpq, Function.update_self]
    rw [hpq] at hpage
    by_cases hin : off ≤ i ∧ i < off + len
    · rw [copyRange_inside hin.1 hin.2,
        copyRange_inside (by omega) (by omega)]
      have : c.baseSector q + i - (c.baseSector q + off) = i - off := by omega
      rw [this]
    · rw [copyRange_outside (by omega), copyRange_outside (by omega), hpage]
  · have hne : c.baseSector p ≠ c.baseSector q := fun heq =>
      hpq (hlist.distinct p q hp' heq)
    have h₁ := hlist.aligned p hp'
    have h₂ := hlist.aligned q hq
    simp only [dvmPageSectors] at *
    rw [Function.update_of_ne hpq, copyRange_outside (by omega), hpage]

/-- Writing sectors that no used page covers. -/
theorem PagesMatch.write_gap
    {c : DvmCache n} {st st' : Storage} {pdrv first len : Nat}
    {src : Nat → SectorData}
    (h : PagesMatch c st pdrv)
    (hgap : ∀ p, c.Used p →
      c.baseSector p + dvmPageSectors ≤ first ∨ first + len ≤ c.baseSector p)
    (hst : st'.sectors = Function.update st.sectors pdrv
      (copyRange (st.sectors pdrv) first len src)) :
    PagesMatch c st' pdrv := by
  intro p hp i hi
  rw [hst, Function.update_self, copyRange_outside, h p hp i hi]
  have := hgap p hp
  omega

/-- One raw transfer: the cached page it lies in, if any, and its length. -/
structure Piece (n : Nat) where
  page : Option (Fin n)
  len : Nat

/-- The raw transfer with which a write of these sectors begins. -/
def nextPiece (c : DvmCache n) (first num : Nat) : Piece n :=
  match dvmCacheSearch c (first - first % dvmPageSectors) with
  | some (some q) =>
      if c.baseSector q = first - first % dvmPageSectors then
        ⟨some q, min num (dvmPageSectors - first % dvmPageSectors)⟩
      else
        ⟨none, min num ((c.baseSector q + lbaRange - first) % lbaRange % uintRange)⟩
  | _ => ⟨none, num⟩

/-- What is to be found depends on the base sectors only. -/
theorem Found.congr
    {c c' : DvmCache n} {pageSector : Nat} {p : Option (Fin n)}
    (hbase : c'.baseSector = c.baseSector) :
    Found c' pageSector p ↔ Found c pageSector p := by
  cases p <;> simp [Found, DvmCache.Used, hbase]

section NextPiece

variable {c₀ : DvmCache n} {s : AccessState n}

/-- The search result of an iteration is what the cut of the request looks up. -/
theorem LookedUp.search_eq
    (hl : LookedUp s)
    (hlist : ∃ order, ListInvariant c₀ order)
    (hbase : s.cache.baseSector = c₀.baseSector) :
    dvmCacheSearch c₀ s.curPageSector = some s.p := by
  obtain ⟨order, hlist⟩ := hlist
  obtain ⟨p, hsearch, hfound⟩ := dvmCacheSearch_spec hlist s.curPageSector
  rw [hsearch, hfound.unique hlist ((Found.congr hbase).1 hl.1)]

/-- A hit is a piece in a page. -/
theorem nextPiece_hit
    (hl : LookedUp s)
    (hlist : ∃ order, ListInvariant c₀ order)
    (hbase : s.cache.baseSector = c₀.baseSector)
    {q : Fin n} (hq : s.p = some q)
    (hhit : s.cache.baseSector q = s.curPageSector) :
    nextPiece c₀ s.firstSector s.numSectors = ⟨some q, s.curSectors⟩ := by
  have hsearch := hl.search_eq hlist hbase
  rw [hq, AccessState.curPageSector] at hsearch
  rw [hbase, AccessState.curPageSector] at hhit
  simp only [nextPiece, hsearch, if_pos hhit]
  rfl

/-- A miss is a piece that reaches up to the next cached page. -/
theorem nextPiece_miss
    (hl : LookedUp s)
    (hlist : ∃ order, ListInvariant c₀ order)
    (hbase : s.cache.baseSector = c₀.baseSector)
    (hmiss : ∀ q, s.p = some q → s.cache.baseSector q ≠ s.curPageSector) :
    nextPiece c₀ s.firstSector s.numSectors = ⟨none, s.directSectors⟩ := by
  have hsearch := hl.search_eq hlist hbase
  rw [AccessState.curPageSector] at hsearch
  cases hp : s.p with
  | none =>
      rw [hp] at hsearch
      simp [nextPiece, hsearch, AccessState.directSectors, hp]
  | some q =>
      have hne := hmiss q hp
      rw [hbase, AccessState.curPageSector] at hne
      rw [hp] at hsearch
      simp only [nextPiece, hsearch, if_neg hne, AccessState.directSectors, hp,
        hbase]

end NextPiece

/-- What holds between two iterations of a write, all raw writes having succeeded. -/
structure WriteInv
    (rq : AccessRequest) (limit : Nat) (st₀ : Storage) (c₀ : DvmCache n)
    (buffer : Nat → SectorData) (s : AccessState n) : Prop where
  loop : LoopInv rq limit s
  pages : PagesMatch s.cache s.storage rq.pdrv
  buffer_eq : s.buffer = buffer
  drives : s.storage.sectors =
    Function.update st₀.sectors rq.pdrv
      (copyRange (st₀.sectors rq.pdrv) rq.origFirst s.done buffer)
  outcomes : s.storage.writeOutcome = st₀.writeOutcome
  base : s.cache.baseSector = c₀.baseSector
  flags : SameFlags c₀ s.cache
  writable : s.done = 0 ∨ diskIsKnown rq.pdrv = true

/-- The raw write of an iteration whose piece has length `len`. -/
def AccessState.rawWrite
    (s : AccessState n) (rq : AccessRequest) (len : Nat) : RawWrite :=
  diskWriteRaw s.storage rq.pdrv s.buffer s.done s.firstSector len

/--
The cache after an iteration whose raw write failed: a piece in a page has
already been copied into the page.
-/
def AccessState.cacheAfterFailure
    (s : AccessState n) (piece : Piece n) : DvmCache n :=
  match piece.page with
  | some q =>
      { s.cache with
        dvmCacheData :=
          Function.update s.cache.dvmCacheData q
            (copyRange (s.cache.dvmCacheData q) s.curPageOffset piece.len
              (fun i => s.buffer (s.done + i))) }
  | none => s.cache

/-- What one iteration of a write does with its piece. -/
structure WriteStep
    (rq : AccessRequest) (limit : Nat) (st₀ : Storage) (c₀ : DvmCache n)
    (buffer : Nat → SectorData) (s : AccessState n) (piece : Piece n)
    (out : AccessState n ⊕ AccessResult n) : Prop where
  progress : limit ≤ uintRange → 0 < piece.len
  succeeds : (s.rawWrite rq piece.len).res = .resOk →
    ∃ s', out = .inl s' ∧ WriteInv rq limit st₀ c₀ buffer s' ∧
      s'.storage = (s.rawWrite rq piece.len).storage ∧
      s'.done = s.done + piece.len ∧
      s'.firstSector = (s.firstSector + piece.len) % lbaRange ∧
      s'.numSectors = s.numSectors - piece.len
  fails : (s.rawWrite rq piece.len).res ≠ .resOk →
    ∃ res, res ≠ .resOk ∧
      out = .inr ⟨res, s.buffer, s.cacheAfterFailure piece,
        (s.rawWrite rq piece.len).storage⟩

section AfterFailure

variable {s : AccessState n} {piece : Piece n}

@[simp] theorem cacheAfterFailure_baseSector :
    (s.cacheAfterFailure piece).baseSector = s.cache.baseSector := by
  unfold AccessState.cacheAfterFailure
  split <;> rfl

theorem cacheAfterFailure_flags :
    SameFlags s.cache (s.cacheAfterFailure piece) := by
  unfold AccessState.cacheAfterFailure
  split <;> exact ⟨rfl, rfl, rfl, rfl⟩

theorem cacheAfterFailure_list
    (h : ∃ order, ListInvariant s.cache order) :
    ∃ order, ListInvariant (s.cacheAfterFailure piece) order := by
  obtain ⟨order, h⟩ := h
  refine ⟨order, ?_⟩
  unfold AccessState.cacheAfterFailure
  split
  · exact h.withPages _ s.cache.dvmMagic
  · exact h

end AfterFailure

section WriteStep

variable {rq : AccessRequest} {limit : Nat}
variable {st₀ : Storage} {c₀ : DvmCache n} {buffer : Nat → SectorData}
variable {s : AccessState n}

/-- The invariant after a raw write of `len` sectors that succeeded. -/
theorem WriteInv.next
    {len : Nat} {c' : DvmCache n}
    (h : WriteInv rq limit st₀ c₀ buffer s) (hpos : 0 < s.numSectors)
    (hlen : len ≤ s.numSectors)
    (hok : (s.rawWrite rq len).res = .resOk)
    (hlist : ∃ order, ListInvariant c' order)
    (hbase : c'.baseSector = s.cache.baseSector)
    (hflags : SameFlags s.cache c')
    (hpages : PagesMatch c' (s.rawWrite rq len).storage rq.pdrv)
    (hsearch : len < s.numSectors →
      ∀ s' : AccessState n, s'.cache = c' → s'.p = s.p →
        s'.searchBase = s.searchBase →
        s'.firstSector = s.firstSector + len → SearchOk s') :
    WriteInv rq limit st₀ c₀ buffer
      ({ s with cache := c', storage := (s.rawWrite rq len).storage }.advance
        len) := by
  have hplace := h.loop.place hpos
  refine
    { loop := ?_
      pages := hpages
      buffer_eq := h.buffer_eq
      drives := ?_
      outcomes := ?_
      base := hbase.trans h.base
      flags := h.flags.trans hflags
      writable := Or.inr (diskWriteRaw_known hok) }
  · refine h.loop.advance hpos hlen hlist (fun p hp => ?_) rfl rfl rfl
      (fun hp hf => ?_)
    · show c'.baseSector p < limit
      have hp' : c'.baseSector p ≠ dvmEmptyPage := hp
      rw [hbase] at hp' ⊢
      exact h.loop.below p hp'
    · refine hsearch ?_ _ rfl rfl rfl hf
      simp only [AccessState.advance] at hp
      omega
  · have hsectors := diskWriteRaw_ok hok
    show (s.rawWrite rq len).storage.sectors = _
    rw [AccessState.rawWrite, hsectors, h.drives, Function.update_idem,
      Function.update_self, hplace, h.buffer_eq, copyRange_append]
    rfl
  · show (s.rawWrite rq len).storage.writeOutcome = _
    rw [AccessState.rawWrite, diskWriteRaw_writeOutcome, h.outcomes]

/-- A piece in a cached page. -/
theorem accessHit_write
    (h : WriteInv rq limit st₀ c₀ buffer s) (hw : rq.isWrite = true)
    (hl : LookedUp s) (hpos : 0 < s.numSectors)
    {q : Fin n} (hq : s.p = some q)
    (hhit : s.cache.baseSector q = s.curPageSector) :
    ∃ out, accessHit rq s q = some out ∧
      WriteStep rq limit st₀ c₀ buffer s ⟨some q, s.curSectors⟩ out := by
  obtain ⟨order, hlist⟩ := h.loop.list
  have hused : s.cache.Used q := by
    have := hl.1
    rw [hq] at this
    exact this.1
  have hcur := s.curSectors_le
  have hfirst := s.curPage_add_offset
  obtain ⟨c, hc⟩ : ∃ c, c = s.cacheAfterFailure ⟨some q, s.curSectors⟩ :=
    ⟨_, rfl⟩
  obtain ⟨w, hwrite⟩ : ∃ w, w = s.rawWrite rq s.curSectors := ⟨_, rfl⟩
  have hlist₁ : ListInvariant c order := by
    rw [hc]
    exact hlist.withPages _ s.cache.dvmMagic
  have hbase : c.baseSector = s.cache.baseSector := by
    rw [hc]
    rfl
  have hflags : SameFlags s.cache c := by
    rw [hc]
    exact ⟨rfl, rfl, rfl, rfl⟩
  have hhit_eq :
      accessHit rq s q =
        if w.res ≠ .resOk then
          some (.inr ⟨.resError, s.buffer, c, w.storage⟩)
        else
          (({ s with cache := c, storage := w.storage }).promoteHit q).map
            fun s' : AccessState n => .inl (s'.advance s.curSectors) := by
    rw [accessHit, if_pos hw, hwrite, hc]
    rfl
  by_cases hok : w.res = .resOk
  · obtain ⟨c', order', hpromote, hlist', hsame⟩ :=
      promoteHit_spec (s := { s with cache := c, storage := w.storage })
        hlist₁ (q := q) (by
          show c.baseSector q ≠ dvmEmptyPage
          rw [hbase]
          exact hused)
    have hbase' : c'.baseSector = s.cache.baseSector := hsame.base.trans hbase
    have hpages : PagesMatch c' w.storage rq.pdrv := by
      refine hsame.pagesMatch.2 ?_
      rw [hc]
      refine h.pages.write_page hlist hused hcur.1 ?_
      rw [hwrite] at hok ⊢
      rw [hhit, hfirst]
      exact diskWriteRaw_ok hok
    refine ⟨_, by rw [hhit_eq, if_neg (not_not.2 hok), hpromote]; rfl,
      fun _ => s.curSectors_pos hpos, ?_, ?_⟩
    · intro hok'
      rw [hwrite] at hpages ⊢
      refine ⟨_, rfl, ?_, rfl, rfl, rfl, rfl⟩
      refine h.next hpos hcur.2 hok' ⟨order', hlist'⟩ hbase'
        (hflags.trans hsame.flags) hpages (fun hend s' _ _ hsb hf => ?_)
      exact searchOk_after_hit hl hq hhit hsb hf hend
    · intro hno
      exact absurd (hwrite ▸ hok) hno
  · refine ⟨_, by rw [hhit_eq, if_pos hok], fun _ => s.curSectors_pos hpos,
      fun hok' => ?_, fun _ => ?_⟩
    · exact absurd (hwrite ▸ hok') hok
    · exact ⟨.resError, by decide, by rw [hc, hwrite]⟩

/-- A piece outside the cached pages. -/
theorem accessDirect_write
    (h : WriteInv rq limit st₀ c₀ buffer s) (hw : rq.isWrite = true)
    (hl : LookedUp s) (hpos : 0 < s.numSectors)
    (hmiss : ∀ q, s.p = some q → s.cache.baseSector q ≠ s.curPageSector) :
    ∃ out, accessDirect rq s = some out ∧
      WriteStep rq limit st₀ c₀ buffer s ⟨none, s.directSectors⟩ out := by
  obtain ⟨order, hlist⟩ := h.loop.list
  have hdir := directSectors_le hlist hl hmiss
  have hprogress : limit ≤ uintRange → 0 < s.directSectors := fun hlimit =>
    directSectors_pos hlist hl hpos
      (fun p hp => (h.loop.below p hp).trans_le hlimit) hmiss
  obtain ⟨w, hwrite⟩ : ∃ w, w = s.rawWrite rq s.directSectors := ⟨_, rfl⟩
  have hdirect_eq :
      accessDirect rq s =
        if w.res ≠ .resOk then
          some (.inr ⟨w.res, s.buffer, s.cache, w.storage⟩)
        else
          some (.inl ({ s with storage := w.storage }.advance s.directSectors)) := by
    rw [accessDirect, if_pos hw, hwrite]
    rfl
  by_cases hok : w.res = .resOk
  · refine ⟨_, by rw [hdirect_eq, if_neg (not_not.2 hok)], hprogress,
      fun hok' => ?_, fun hno => absurd (hwrite ▸ hok) hno⟩
    have hsectors := diskWriteRaw_ok hok'
    have hpages : PagesMatch s.cache w.storage rq.pdrv := by
      rw [hwrite]
      exact h.pages.write_gap
        (fun p hp => directSectors_gap hlist hl hmiss hp) hsectors
    rw [hwrite] at hpages ⊢
    refine ⟨_, rfl, ?_, rfl, rfl, rfl, rfl⟩
    refine h.next hpos hdir.1 hok' ⟨order, hlist⟩ rfl (SameFlags.refl _) hpages
      (fun hend s' hcache hp hsb hf => ?_)
    exact searchOk_after_direct hlist hl hmiss hcache hp hsb hf hend
  · refine ⟨_, by rw [hdirect_eq, if_pos hok], hprogress, fun hok' => ?_,
      fun hno => ?_⟩
    · exact absurd (hwrite ▸ hok') hok
    · exact ⟨w.res, hok, by rw [hwrite]; rfl⟩

/-- One iteration of a write. -/
theorem accessStep_write
    (h : WriteInv rq limit st₀ c₀ buffer s) (hw : rq.isWrite = true)
    (hpos : 0 < s.numSectors)
    (hlist₀ : ∃ order, ListInvariant c₀ order) :
    ∃ out, accessStep rq s = some out ∧
      WriteStep rq limit st₀ c₀ buffer s
        (nextPiece c₀ s.firstSector s.numSectors) out := by
  obtain ⟨p, searchBase, hlookup, hl⟩ := lookup_spec h.loop hpos
  have h₁ : WriteInv rq limit st₀ c₀ buffer
      { s with p := p, searchBase := searchBase } :=
    { h with loop := h.loop.lookup hl }
  rw [accessStep, hlookup, Option.bind_some]
  rcases accessBranch_cases rq { s with p := p, searchBase := searchBase } with
    ⟨q, hp, hq, hbranch⟩ | ⟨hmiss, hbranch⟩
  · obtain ⟨out, hout, hstep⟩ := accessHit_write h₁ hw hl hpos hp hq
    have hpiece := nextPiece_hit hl hlist₀ h.base hp hq
    refine ⟨out, hbranch.trans hout, ?_⟩
    rw [show nextPiece c₀ s.firstSector s.numSectors = _ from hpiece]
    exact ⟨hstep.progress, hstep.succeeds, hstep.fails⟩
  · have hdirect :
        accessMiss rq { s with p := p, searchBase := searchBase } =
          accessDirect rq { s with p := p, searchBase := searchBase } := by
      rw [accessMiss, hw]
      rfl
    obtain ⟨out, hout, hstep⟩ := accessDirect_write h₁ hw hl hpos hmiss
    have hpiece := nextPiece_miss hl hlist₀ h.base hmiss
    refine ⟨out, hbranch.trans (hdirect.trans hout), ?_⟩
    rw [show nextPiece c₀ s.firstSector s.numSectors = _ from hpiece]
    exact ⟨hstep.progress, hstep.succeeds, hstep.fails⟩

end WriteStep

/-- What holds when a write has returned and no raw write was refused. -/
structure WritePost
    (rq : AccessRequest) (limit : Nat) (st₀ : Storage) (c₀ : DvmCache n)
    (buffer : Nat → SectorData) (r : AccessResult n) : Prop where
  list : ∃ order, ListInvariant r.cache order
  below : PagesBelow r.cache limit
  pages : PagesMatch r.cache r.storage rq.pdrv
  base : r.cache.baseSector = c₀.baseSector
  flags : SameFlags c₀ r.cache
  outcomes : r.storage.writeOutcome = st₀.writeOutcome
  drives : r.storage.sectors =
    (diskWriteRaw st₀ rq.pdrv buffer 0 rq.origFirst rq.origCount).storage.sectors

section WholeWrite

variable {rq : AccessRequest} {limit : Nat}
variable {c : DvmCache n} {st : Storage} {buffer : Nat → SectorData}

theorem WriteInv.start
    (h : Claimed rq limit c st) :
    WriteInv rq limit st c buffer (accessStart rq c st buffer) where
  loop := h.loop buffer
  pages := h.pages
  buffer_eq := rfl
  drives := by simp [accessStart]
  outcomes := rfl
  base := rfl
  flags := SameFlags.refl c
  writable := Or.inl rfl

/-- A write that has come to its end has done what one raw write does. -/
theorem WriteInv.finish
    {s : AccessState n}
    (h : WriteInv rq limit st c buffer s)
    (haccept : ∀ k, st.writeOutcome k = true)
    (hcount : 0 < rq.origCount) (hzero : s.numSectors = 0) :
    WritePost rq limit st c buffer ⟨.resOk, s.buffer, s.cache, s.storage⟩ where
  list := h.loop.list
  below := h.loop.below
  pages := h.pages
  base := h.base
  flags := h.flags
  outcomes := h.outcomes
  drives := by
    have hdone := h.loop.count
    have hknown : diskIsKnown rq.pdrv = true :=
      h.writable.resolve_left (by omega)
    have hok : (diskWriteRaw st rq.pdrv buffer 0 rq.origFirst
        rq.origCount).res = .resOk :=
      (diskWriteRaw_res hknown).2 (haccept st.writes)
    have hall : s.done = rq.origCount := by omega
    rw [diskWriteRaw_ok hok]
    simp only [h.drives, hall, Nat.zero_add]

/-- A refused write of an unknown drive leaves everything as it was. -/
theorem WriteInv.refused
    {s : AccessState n} {piece : Piece n} {res : DResult}
    (h : WriteInv rq limit st c buffer s)
    (haccept : ∀ k, st.writeOutcome k = true)
    (hknown : ∀ p, c.Used p → diskIsKnown rq.pdrv = true)
    (hno : (s.rawWrite rq piece.len).res ≠ .resOk) :
    WritePost rq limit st c buffer
      ⟨res, s.buffer, s.cacheAfterFailure piece,
        (s.rawWrite rq piece.len).storage⟩ := by
  have hunknown : ¬ diskIsKnown rq.pdrv = true := by
    intro hk
    refine hno ((diskWriteRaw_res hk).2 ?_)
    rw [h.outcomes]
    exact haccept _
  have hdone := h.writable.resolve_right hunknown
  have hbase : (s.cacheAfterFailure piece).baseSector = c.baseSector := by
    rw [cacheAfterFailure_baseSector, h.base]
  have hnone : ∀ p, ¬ (s.cacheAfterFailure piece).Used p := by
    intro p hp
    refine hunknown (hknown p ?_)
    unfold DvmCache.Used at hp ⊢
    rwa [hbase] at hp
  refine
    { list := cacheAfterFailure_list h.loop.list
      below := fun p hp => absurd hp (hnone p)
      pages := fun p hp => absurd hp (hnone p)
      base := hbase
      flags := h.flags.trans cacheAfterFailure_flags
      outcomes := ?_
      drives := ?_ }
  · show (s.rawWrite rq piece.len).storage.writeOutcome = _
    rw [AccessState.rawWrite, diskWriteRaw_writeOutcome, h.outcomes]
  · show (s.rawWrite rq piece.len).storage.sectors = _
    have hraw :
        (diskWriteRaw st rq.pdrv buffer 0 rq.origFirst rq.origCount).res ≠
          .resOk := fun hok => hunknown (diskWriteRaw_known hok)
    rw [diskWriteRaw_failed hraw, AccessState.rawWrite, diskWriteRaw_failed hno,
      h.drives, hdone, copyRange_zero, Function.update_eq_self]

/-- What a write leaves behind when no raw write is refused. -/
theorem dvmCacheAccess_write
    (h : Claimed rq limit c st)
    (hknown : ∀ p, c.Used p → diskIsKnown rq.pdrv = true)
    (haccept : ∀ k, st.writeOutcome k = true)
    (hw : rq.isWrite = true) (hcount : 0 < rq.origCount)
    {fuel : Nat} {r : AccessResult n}
    (hr : dvmCacheAccess fuel rq c st buffer = some r) :
    WritePost rq limit st c buffer r := by
  refine FuelLoop.run_sound (WriteInv rq limit st c buffer) _ ?_ ?_
    (WriteInv.start h) hr
  · intro s s' hs hstep
    rw [accessLoop] at hstep
    split at hstep
    · cases hstep
    · rename_i hpos
      obtain ⟨out, hout, hpiece⟩ := accessStep_write hs hw (by omega) h.list
      rw [hout] at hstep
      by_cases hok : (s.rawWrite rq
          (nextPiece c s.firstSector s.numSectors).len).res = .resOk
      · obtain ⟨s'', rfl, hinv, _⟩ := hpiece.succeeds hok
        cases hstep
        exact hinv
      · obtain ⟨res, _, rfl⟩ := hpiece.fails hok
        cases hstep
  · intro s r' hs hstep
    rw [accessLoop] at hstep
    split at hstep
    · rename_i hzero
      cases hstep
      exact hs.finish haccept hcount hzero
    · rename_i hpos
      obtain ⟨out, hout, hpiece⟩ := accessStep_write hs hw (by omega) h.list
      rw [hout] at hstep
      by_cases hok : (s.rawWrite rq
          (nextPiece c s.firstSector s.numSectors).len).res = .resOk
      · obtain ⟨s'', rfl, _⟩ := hpiece.succeeds hok
        cases hstep
      · obtain ⟨res, _, rfl⟩ := hpiece.fails hok
        cases hstep
        exact hs.refused haccept hknown hok

/-- With all sectors below `2 ^ 32` a write returns, refused or not. -/
theorem dvmCacheAccess_write_returns
    (h : Claimed rq limit c st)
    (hw : rq.isWrite = true) (hlimit : limit ≤ uintRange) :
    ∃ fuel r, dvmCacheAccess fuel rq c st buffer = some r := by
  refine ⟨rq.origCount + 1,
    FuelLoop.run_total (WriteInv rq limit st c buffer)
      (fun s => s.numSectors) ?_ (WriteInv.start h) (Nat.lt_succ_self _)⟩
  intro s hs
  by_cases hzero : s.numSectors = 0
  · exact Or.inl ⟨_, if_pos hzero⟩
  · rw [accessLoop, if_neg hzero]
    obtain ⟨out, hout, hpiece⟩ := accessStep_write hs hw (by omega) h.list
    by_cases hok : (s.rawWrite rq
        (nextPiece c s.firstSector s.numSectors).len).res = .resOk
    · obtain ⟨s', rfl, hinv, _, _, _, hnum⟩ := hpiece.succeeds hok
      have := hpiece.progress hlimit
      refine Or.inr ⟨s', hout, hinv, ?_⟩
      show s'.numSectors < s.numSectors
      omega
    · obtain ⟨res, _, rfl⟩ := hpiece.fails hok
      exact Or.inl ⟨_, hout⟩

end WholeWrite

end Dvm
end Cubiboot
