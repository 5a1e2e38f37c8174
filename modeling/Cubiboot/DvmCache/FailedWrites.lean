import Cubiboot.DvmCache.Transparency

/-!
# Writes that fail

A write stops at its first refused raw write.  The pieces before it have reached
both the pages and the drive.  A refused piece outside the cached pages has
reached neither, but a refused piece in a page has already been copied into the
page.  The cache is coherent afterwards exactly when that copy changed nothing.

Results: `cacheAfterFailure_pages`, the pages after a piece that is refused;
`WriteTrace.next` and `WriteTrace.refused`, what the pieces up to the first refused one
have done; and `dvm_cache_write_failed_coherent_iff`, for which refusals the cache still
agrees with its drive.
-/

namespace Cubiboot
namespace Dvm

open CopyRange

variable {n : Nat}

/-- Raw write number `k` of a request, counted from `st`, does not succeed. -/
def rawWriteRefused (st : Storage) (pdrv k : Nat) : Bool :=
  !(diskIsKnown pdrv && st.writeOutcome (st.writes + k))

/-- A piece of a request with its place in the buffer and on the drive. -/
structure RequestPiece (n : Nat) extends Piece n where
  place : Nat
  first : Nat

/-- Piece number `k` of a write of `num` sectors from place `place` on. -/
def writePieceAt
    (c : DvmCache n) : Nat → Nat → Nat → Nat → Option (RequestPiece n)
  | 0, place, first, num =>
      if num = 0 then
        none
      else
        some ⟨nextPiece c first num, place, first⟩
  | k + 1, place, first, num =>
      if num = 0 then
        none
      else
        writePieceAt c k (place + (nextPiece c first num).len)
          ((first + (nextPiece c first num).len) % lbaRange)
          (num - (nextPiece c first num).len)

/--
The first refused piece of a request either lies outside the cached pages or
carries what the drive already holds.
-/
def RefusalHarmless
    (c : DvmCache n) (st : Storage) (pdrv : Nat)
    (buffer : Nat → SectorData) (sector count : Nat) : Prop :=
  ∀ k piece,
    rawWriteRefused st pdrv k = true →
    (∀ j < k, rawWriteRefused st pdrv j = false) →
    writePieceAt c k 0 sector count = some piece →
    piece.page.isSome = true →
    ∀ i < piece.len,
      buffer (piece.place + i) = st.sectors pdrv (piece.first + i)

/-- A piece in a page is one of a used page, and inside it. -/
theorem nextPiece_page
    {c : DvmCache n} {first num : Nat} {q : Fin n}
    (hlist : ∃ order, ListInvariant c order)
    (hq : (nextPiece c first num).page = some q) :
    c.Used q ∧ c.baseSector q + first % dvmPageSectors = first ∧
      first % dvmPageSectors + (nextPiece c first num).len ≤ dvmPageSectors := by
  obtain ⟨order, hlist⟩ := hlist
  obtain ⟨p, hsearch, hfound⟩ :=
    dvmCacheSearch_spec hlist (first - first % dvmPageSectors)
  have hle := Nat.mod_le first dvmPageSectors
  have hlt := Nat.mod_lt first (by decide : 0 < dvmPageSectors)
  unfold nextPiece at hq ⊢
  rw [hsearch] at hq ⊢
  cases p with
  | none => cases hq
  | some p =>
      by_cases hbase : c.baseSector p = first - first % dvmPageSectors
      · simp only [if_pos hbase, Option.some.injEq] at hq ⊢
        rw [← hq]
        refine ⟨hfound.1, ?_, ?_⟩ <;> omega
      · simp only [if_neg hbase] at hq
        cases hq

theorem cacheAfterFailure_data
    {s : AccessState n} {q : Fin n} {len : Nat} :
    (s.cacheAfterFailure ⟨some q, len⟩).dvmCacheData =
      Function.update s.cache.dvmCacheData q
        (copyRange (s.cache.dvmCacheData q) s.curPageOffset len
          (fun i => s.buffer (s.done + i))) :=
  rfl

/-- The pages after a refused piece in a page. -/
theorem cacheAfterFailure_pages
    {s : AccessState n} {st' : Storage} {pdrv len : Nat} {q : Fin n}
    (hlist : ∃ order, ListInvariant s.cache order)
    (hpages : PagesMatch s.cache s.storage pdrv)
    (hused : s.cache.Used q)
    (hfirst : s.cache.baseSector q + s.curPageOffset = s.firstSector)
    (hlen : s.curPageOffset + len ≤ dvmPageSectors)
    (hst : st'.sectors = s.storage.sectors) :
    PagesMatch (s.cacheAfterFailure ⟨some q, len⟩) st' pdrv ↔
      ∀ i < len,
        s.buffer (s.done + i) = s.storage.sectors pdrv (s.firstSector + i) := by
  obtain ⟨order, hlist⟩ := hlist
  constructor
  · intro h i hi
    have hq := h q hused (s.curPageOffset + i) (by omega)
    have hdata :
        (s.cacheAfterFailure ⟨some q, len⟩).dvmCacheData q
            (s.curPageOffset + i) =
          s.buffer (s.done + i) := by
      rw [cacheAfterFailure_data, Function.update_self,
        copyRange_inside (by omega) (by omega)]
      congr 2
      omega
    rw [hdata, hst] at hq
    rw [hq]
    show s.storage.sectors pdrv (s.cache.baseSector q + _) = _
    congr 1
    omega
  · intro h p hp i hi
    have hp' : s.cache.Used p := hp
    have hpage := hpages p hp' i hi
    show (s.cacheAfterFailure ⟨some q, len⟩).dvmCacheData p i =
      st'.sectors pdrv (s.cache.baseSector p + i)
    rw [hst, ← hpage, cacheAfterFailure_data]
    by_cases hpq : p = q
    · rw [hpq] at hpage ⊢
      rw [Function.update_self]
      by_cases hin : s.curPageOffset ≤ i ∧ i < s.curPageOffset + len
      · rw [copyRange_inside hin.1 hin.2, h _ (by omega), hpage]
        congr 1
        omega
      · rw [copyRange_outside (by omega)]
    · rw [Function.update_of_ne hpq]

/-- A write under way, `k` pieces of which have been accepted. -/
structure WriteTrace
    (rq : AccessRequest) (limit : Nat) (st₀ : Storage) (c₀ : DvmCache n)
    (buffer : Nat → SectorData) (k : Nat) (s : AccessState n) : Prop where
  inv : WriteInv rq limit st₀ c₀ buffer s
  writes : s.storage.writes = st₀.writes + k
  accepted : ∀ j < k, rawWriteRefused st₀ rq.pdrv j = false
  rest : ∀ j, writePieceAt c₀ (k + j) 0 rq.origFirst rq.origCount =
    writePieceAt c₀ j s.done s.firstSector s.numSectors

section Trace

variable {rq : AccessRequest} {limit : Nat}
variable {c : DvmCache n} {st : Storage} {buffer : Nat → SectorData}
variable {k : Nat} {s : AccessState n}

/-- The raw write of the next piece is raw write number `k`. -/
theorem WriteTrace.refused_iff
    (h : WriteTrace rq limit st c buffer k s) (len : Nat) :
    (s.rawWrite rq len).res ≠ .resOk ↔ rawWriteRefused st rq.pdrv k = true := by
  unfold rawWriteRefused
  rw [← h.writes, ← h.inv.outcomes]
  by_cases hknown : diskIsKnown rq.pdrv = true
  · rw [AccessState.rawWrite, ne_eq, diskWriteRaw_res hknown, hknown]
    simp
  · have hno : (s.rawWrite rq len).res ≠ .resOk := fun hok =>
      hknown (diskWriteRaw_known hok)
    simp [hno, hknown]

/-- An accepted piece. -/
theorem WriteTrace.next
    (h : WriteTrace rq limit st c buffer k s) (hpos : 0 < s.numSectors)
    {s' : AccessState n}
    (hok : (s.rawWrite rq (nextPiece c s.firstSector s.numSectors).len).res =
      .resOk)
    (hinv : WriteInv rq limit st c buffer s')
    (hstorage : s'.storage =
      (s.rawWrite rq (nextPiece c s.firstSector s.numSectors).len).storage)
    (hdone : s'.done = s.done + (nextPiece c s.firstSector s.numSectors).len)
    (hfirst : s'.firstSector =
      (s.firstSector + (nextPiece c s.firstSector s.numSectors).len) % lbaRange)
    (hnum : s'.numSectors =
      s.numSectors - (nextPiece c s.firstSector s.numSectors).len) :
    WriteTrace rq limit st c buffer (k + 1) s' where
  inv := hinv
  writes := by
    rw [hstorage, AccessState.rawWrite,
      diskWriteRaw_writes (diskWriteRaw_known hok), h.writes]
    omega
  accepted := by
    intro j hj
    by_cases hjk : j = k
    · have hno := mt (h.refused_iff _).2 (not_not.2 hok)
      rw [hjk]
      simpa using hno
    · exact h.accepted j (by omega)
  rest := by
    intro j
    have hstep : writePieceAt c (j + 1) s.done s.firstSector s.numSectors =
        writePieceAt c j s'.done s'.firstSector s'.numSectors := by
      rw [hdone, hfirst, hnum, writePieceAt, if_neg (by omega)]
    rw [← hstep, ← h.rest (j + 1)]
    congr 1
    omega

/-- A refused piece: the pages still match exactly when it is harmless. -/
theorem WriteTrace.refused
    (h : WriteTrace rq limit st c buffer k s) (hpos : 0 < s.numSectors)
    (hlist : ∃ order, ListInvariant c order)
    (hno : (s.rawWrite rq (nextPiece c s.firstSector s.numSectors).len).res ≠
      .resOk) :
    PagesMatch
        (s.cacheAfterFailure (nextPiece c s.firstSector s.numSectors))
        (s.rawWrite rq (nextPiece c s.firstSector s.numSectors).len).storage
        rq.pdrv ↔
      RefusalHarmless c st rq.pdrv buffer rq.origFirst rq.origCount := by
  obtain ⟨piece, hpiece⟩ : ∃ piece, piece =
    nextPiece c s.firstSector s.numSectors := ⟨_, rfl⟩
  have hk : writePieceAt c k 0 rq.origFirst rq.origCount =
      some ⟨piece, s.done, s.firstSector⟩ := by
    have := h.rest 0
    rw [Nat.add_zero] at this
    rw [this, writePieceAt, if_neg (by omega), hpiece]
  have hrefused := (h.refused_iff _).1 hno
  have hsectors := diskWriteRaw_failed hno
  rw [← hpiece] at hno hsectors ⊢
  -- the refused piece is the only one the condition looks at
  have hcond : RefusalHarmless c st rq.pdrv buffer rq.origFirst rq.origCount ↔
      (piece.page.isSome = true → ∀ i < piece.len,
        buffer (s.done + i) = st.sectors rq.pdrv (s.firstSector + i)) := by
    constructor
    · intro hharm hpage
      exact hharm k _ hrefused h.accepted hk hpage
    · intro hp k' piece' hrefused' haccepted' hk' hpage
      rcases Nat.lt_trichotomy k k' with hlt | heq | hgt
      · have := haccepted' k hlt
        rw [hrefused] at this
        cases this
      · rw [← heq, hk] at hk'
        cases hk'
        exact hp hpage
      · have := h.accepted k' hgt
        rw [hrefused'] at this
        cases this
  rw [hcond]
  obtain ⟨page, len⟩ := piece
  cases page with
  | none =>
      refine ⟨fun _ hp => absurd hp (by simp), fun _ => ?_⟩
      exact h.inv.pages.of_sectors hsectors
  | some q =>
      have hpage : (nextPiece c s.firstSector s.numSectors).page = some q := by
        rw [← hpiece]
      obtain ⟨hused, hbase, hlen⟩ :=
        nextPiece_page hlist hpage
      rw [← hpiece] at hlen
      have hplace := h.inv.loop.place hpos
      have hiff := cacheAfterFailure_pages
        h.inv.loop.list h.inv.pages (q := q)
        (by unfold DvmCache.Used at hused ⊢; rwa [h.inv.base])
        (by rw [h.inv.base]; exact hbase) hlen hsectors
      refine hiff.trans ?_
      -- the sectors from here on are still those of the start
      have hrest : ∀ i, s.storage.sectors rq.pdrv (s.firstSector + i) =
          st.sectors rq.pdrv (s.firstSector + i) := by
        intro i
        rw [h.inv.drives, Function.update_self, copyRange_outside (by omega)]
      simp only [Option.isSome_some, true_imp_iff, h.inv.buffer_eq, hrest]

/-- The pages after a write that failed. -/
theorem dvmCacheAccess_failed_pages
    (h : Claimed rq limit c st) (hw : rq.isWrite = true)
    {fuel : Nat} {r : AccessResult n}
    (hr : dvmCacheAccess fuel rq c st buffer = some r)
    (herr : r.res ≠ .resOk) :
    (∃ order, ListInvariant r.cache order) ∧ SameFlags c r.cache ∧
      (PagesMatch r.cache r.storage rq.pdrv ↔
        RefusalHarmless c st rq.pdrv buffer rq.origFirst rq.origCount) := by
  refine FuelLoop.run_sound
    (fun s => ∃ k, WriteTrace rq limit st c buffer k s)
    (fun r => r.res ≠ .resOk →
      (∃ order, ListInvariant r.cache order) ∧ SameFlags c r.cache ∧
        (PagesMatch r.cache r.storage rq.pdrv ↔
          RefusalHarmless c st rq.pdrv buffer rq.origFirst rq.origCount))
    ?_ ?_ ?_ hr herr
  · rintro s s' ⟨k, hs⟩ hstep
    rw [accessLoop] at hstep
    split at hstep
    · cases hstep
    · rename_i hpos
      obtain ⟨out, hout, hpiece⟩ := accessStep_write hs.inv hw (by omega) h.list
      rw [hout] at hstep
      by_cases hok : (s.rawWrite rq
          (nextPiece c s.firstSector s.numSectors).len).res = .resOk
      · obtain ⟨s'', rfl, hinv, h₁, h₂, h₃, h₄⟩ := hpiece.succeeds hok
        cases hstep
        exact ⟨k + 1, hs.next (by omega) hok hinv h₁ h₂ h₃ h₄⟩
      · obtain ⟨res, _, rfl⟩ := hpiece.fails hok
        cases hstep
  · rintro s r' ⟨k, hs⟩ hstep herr'
    rw [accessLoop] at hstep
    split at hstep
    · cases hstep
      exact absurd rfl herr'
    · rename_i hpos
      obtain ⟨out, hout, hpiece⟩ := accessStep_write hs.inv hw (by omega) h.list
      rw [hout] at hstep
      by_cases hok : (s.rawWrite rq
          (nextPiece c s.firstSector s.numSectors).len).res = .resOk
      · obtain ⟨s'', rfl, _⟩ := hpiece.succeeds hok
        cases hstep
      · obtain ⟨res, _, rfl⟩ := hpiece.fails hok
        cases hstep
        exact ⟨cacheAfterFailure_list hs.inv.loop.list,
          hs.inv.flags.trans cacheAfterFailure_flags,
          hs.refused (by omega) h.list hok⟩
  · exact ⟨0, WriteInv.start h, rfl, fun j hj => by omega,
      fun j => by rw [Nat.zero_add]; rfl⟩

end Trace

/--
A write that returns an error leaves the cache coherent exactly when its first
refused piece was harmless.
-/
theorem dvm_cache_write_failed_coherent_iff
    {c : DvmCache n} {st : Storage} (hcoherent : Coherent c st)
    (pdrv : Nat) (buff : UserBuffer) (sector count : Nat)
    (hrange : sector + count ≤ lbaRange)
    {fuel : Nat} {r : AccessResult n}
    (hr : dvmCacheWrite fuel c st pdrv buff sector count = some r)
    (herr : r.res ≠ .resOk) :
    Coherent r.cache r.storage ↔
      (c.dvmDisabled = false →
        RefusalHarmless (dvmCacheClaim c pdrv) st pdrv buff.data sector count) := by
  unfold dvmCacheWrite at hr
  split at hr
  · cases hr
    exact absurd rfl herr
  · split at hr
    · rename_i hdisabled
      cases hr
      refine ⟨fun _ he => by simp [hdisabled] at he, fun _ => ?_⟩
      exact ⟨hcoherent.list, fun hi => absurd hi.2.2 (by simp [hdisabled]),
        hcoherent.idle⟩
    · rename_i hdisabled
      have henabled : c.dvmDisabled = false := by simpa using hdisabled
      obtain ⟨hready, hmagic, howner, hsame⟩ := dvmCacheClaim_flags c pdrv
      have hbelow : c.dvmReady = true → PagesBelow c lbaRange := by
        intro h p hp
        obtain ⟨order, hlist⟩ := hcoherent.list h
        exact hlist.bounded p hp
      obtain ⟨hlist, hflags, hpages⟩ := dvmCacheAccess_failed_pages
        (hcoherent.claim henabled hbelow hrange le_rfl) rfl hr herr
      have hdisabled' : r.cache.dvmDisabled = false :=
        (hflags.disabled.trans hsame).trans henabled
      have howner' : r.cache.dvmOwnerPdrv = pdrv := hflags.owner.trans howner
      constructor
      · intro h _
        have hmatch := h.pages
          ⟨hflags.ready.trans hready, hflags.magic.trans hmagic, hdisabled'⟩
        rw [howner'] at hmatch
        exact hpages.1 hmatch
      · intro h
        refine ⟨fun _ => hlist, fun _ => ?_, fun _ hd => ?_⟩
        · rw [howner']
          exact hpages.2 (h henabled)
        · rw [hdisabled'] at hd
          cases hd

/-- A page of zeros cached from drive 0, over a drive that refuses every write. -/
def zeroPageCached : AccessResult 32 :=
  ((dvmCacheRead 4 (.atBoot 32) (.blank true) 0 (.filled 0) 0 1).map fun r =>
    { r with storage := { r.storage with writeOutcome := fun _ => false } }).getD
      ⟨.resError, fun _ _ => 0, .atBoot 32, .blank false⟩

theorem zeroPageCached_coherent :
    Coherent zeroPageCached.cache zeroPageCached.storage := by
  obtain ⟨r, hr⟩ : ∃ r, dvmCacheRead 4 (.atBoot 32) (.blank true) 0 (.filled 0) 0 1 =
      some r := ⟨_, rfl⟩
  have hboot : System.Valid ⟨DvmCache.atBoot 32, .blank true⟩ :=
    .of_not_ready rfl fun _ => rfl
  have hcoherent := (dvmCacheRead_spec hboot (by decide) (by decide) hr).1.coherent
  have heq : zeroPageCached =
      { r with storage := { r.storage with writeOutcome := fun _ => false } } := by
    rw [zeroPageCached, hr]
    rfl
  rw [heq]
  exact ⟨hcoherent.list, hcoherent.pages, hcoherent.idle⟩

/--
A refused write of one sector to a cached page of zeros.  The page keeps the
bytes that the drive never took, and the next read delivers them.
-/
theorem refused_write_read_back :
    ∃ r r' : AccessResult 32,
      Coherent zeroPageCached.cache zeroPageCached.storage ∧
      dvmCacheWrite 4 zeroPageCached.cache zeroPageCached.storage 0
        (.filled 1) 0 1 = some r ∧
      r.res ≠ .resOk ∧
      ¬ Coherent r.cache r.storage ∧
      dvmCacheRead 4 r.cache r.storage 0 (.filled 0) 0 1 = some r' ∧
      r'.res = .resOk ∧
      r'.buffer 0 0 ≠ r.storage.sectors 0 0 0 := by
  obtain ⟨r, r', hwrite, hres, hready, hmagic, henabled, howner, hbase, hpage,
      hdrive, hread, hres', hbuffer⟩ :
      ∃ r r' : AccessResult 32,
        dvmCacheWrite 4 zeroPageCached.cache zeroPageCached.storage 0
          (.filled 1) 0 1 = some r ∧
        r.res = .resError ∧
        r.cache.dvmReady = true ∧ r.cache.dvmMagic = dvmMagicValue ∧
        r.cache.dvmDisabled = false ∧ r.cache.dvmOwnerPdrv = 0 ∧
        r.cache.baseSector 0 = 0 ∧ r.cache.dvmCacheData 0 0 0 = 1 ∧
        r.storage.sectors 0 0 0 = 0 ∧
        dvmCacheRead 4 r.cache r.storage 0 (.filled 0) 0 1 = some r' ∧
        r'.res = .resOk ∧ r'.buffer 0 0 = 1 :=
    ⟨_, _, rfl, rfl, rfl, rfl, rfl, rfl, rfl, rfl, rfl, rfl, rfl, rfl⟩
  refine ⟨r, r', zeroPageCached_coherent, hwrite, by simp [hres],
    fun hcoherent => ?_, hread, hres', by simp [hbuffer, hdrive]⟩
  have hmatch := hcoherent.pages ⟨hready, hmagic, henabled⟩ 0
    (by unfold DvmCache.Used; rw [hbase]; decide) 0 (by decide)
  rw [howner, hbase] at hmatch
  have hbyte := congrFun hmatch 0
  rw [hpage, Nat.zero_add, hdrive] at hbyte
  exact absurd hbyte (by decide)

/-- A refused write that begins past the cached page. -/
theorem refused_write_of_gap_coherent :
    ∃ r : AccessResult 32,
      dvmCacheWrite 4 zeroPageCached.cache zeroPageCached.storage 0
        (.filled 1) 4 9 = some r ∧
      r.res ≠ .resOk ∧
      (Coherent r.cache r.storage ↔
        (zeroPageCached.cache.dvmDisabled = false →
          RefusalHarmless (dvmCacheClaim zeroPageCached.cache 0)
            zeroPageCached.storage 0 (UserBuffer.filled 1).data 4 9)) := by
  obtain ⟨r, hr, hres⟩ : ∃ r : AccessResult 32,
      dvmCacheWrite 4 zeroPageCached.cache zeroPageCached.storage 0
        (.filled 1) 4 9 = some r ∧ r.res = .resWrprt := ⟨_, rfl, rfl⟩
  have herr : r.res ≠ .resOk := by simp [hres]
  exact ⟨r, hr, herr,
    dvm_cache_write_failed_coherent_iff zeroPageCached_coherent 0 (.filled 1) 4 9
      (by decide) hr herr⟩

end Dvm
end Cubiboot
