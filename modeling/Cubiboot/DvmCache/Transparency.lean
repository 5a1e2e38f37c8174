import Cubiboot.DvmCache.Writes
import Cubiboot.Foundations.Runs

/-!
# The cache is transparent

The block cache over any sequence of calls, with the page region wiped between
calls and the pages overwritten while the cache is disabled.

`Coherent` is what the cache keeps: when it is enabled and its magic is intact,
every used page holds what the drive of its owner holds.  A read that succeeds
returns the sectors of the drive and a write leaves the drives as the raw write
of the same request does.

Results: `CallStep.valid` and `System.Reachable.valid`, that the calls keep coherence;
`dvm_cache_transparent`, the reads and the writes in every state of every run.
-/

namespace Cubiboot
namespace Dvm

open CopyRange Runs

variable {n : Nat}

/-- The cache is set up, enabled, and its page region has not been wiped. -/
def DvmCache.Intact (c : DvmCache n) : Prop :=
  c.dvmReady = true ∧ c.dvmMagic = dvmMagicValue ∧ c.dvmDisabled = false

/-- The used pages are those of the drive of their owner. -/
structure Coherent (c : DvmCache n) (st : Storage) : Prop where
  list : c.dvmReady = true → ∃ order, ListInvariant c order
  pages : c.Intact → PagesMatch c st c.dvmOwnerPdrv
  idle : c.dvmReady = true → c.dvmDisabled = true → ∀ p, ¬ c.Used p

/-- A cache that is not ready, as at boot and after every switch. -/
theorem Coherent.of_not_ready
    {c : DvmCache n} {st : Storage} (h : c.dvmReady = false) :
    Coherent c st where
  list := fun hr => by rw [h] at hr; cases hr
  pages := fun hi => by have := hi.1; rw [h] at this; cases this
  idle := fun hr => by rw [h] at hr; cases hr

/-- A reset cache has no used page. -/
theorem dvmCacheReset_unused
    (c : DvmCache n) (p : Fin n) : ¬ (dvmCacheReset c).Used p :=
  fun hp => hp rfl

theorem Coherent.reset
    (c : DvmCache n) (st : Storage) : Coherent (dvmCacheReset c) st where
  list := fun _ => ⟨_, dvmCacheReset_spec c⟩
  pages := fun _ p hp => absurd hp (dvmCacheReset_unused c p)
  idle := fun _ _ => dvmCacheReset_unused c

/-- The flags of a claimed cache. -/
theorem dvmCacheClaim_flags
    (c : DvmCache n) (pdrv : Nat) :
    (dvmCacheClaim c pdrv).dvmReady = true ∧
      (dvmCacheClaim c pdrv).dvmMagic = dvmMagicValue ∧
      (dvmCacheClaim c pdrv).dvmOwnerPdrv = pdrv ∧
      (dvmCacheClaim c pdrv).dvmDisabled = c.dvmDisabled := by
  unfold dvmCacheClaim
  split
  · exact ⟨rfl, rfl, rfl, rfl⟩
  · rename_i hno
    simp only [not_or, not_not, Bool.not_eq_false] at hno
    exact ⟨hno.2.1, hno.1, hno.2.2.symm, rfl⟩

/-- Claiming resets the cache, or keeps one that is intact and of this drive. -/
theorem dvmCacheClaim_cases
    (c : DvmCache n) (pdrv : Nat) :
    (∀ p, ¬ (dvmCacheClaim c pdrv).Used p) ∧
        (∃ order, ListInvariant (dvmCacheClaim c pdrv) order) ∨
      dvmCacheClaim c pdrv = c ∧ c.dvmReady = true ∧
        c.dvmMagic = dvmMagicValue ∧ pdrv = c.dvmOwnerPdrv := by
  unfold dvmCacheClaim
  split
  · left
    exact ⟨dvmCacheReset_unused c, _, (dvmCacheReset_spec c).withFlags pdrv true c.dvmDisabled⟩
  · rename_i hno
    simp only [not_or, not_not, Bool.not_eq_false] at hno
    exact Or.inr ⟨rfl, hno.2.1, hno.1, hno.2.2⟩

/-- A claimed cache agrees with the drive of the request. -/
theorem Coherent.claim
    {c : DvmCache n} {st : Storage} {rq : AccessRequest} {limit : Nat}
    (h : Coherent c st) (henabled : c.dvmDisabled = false)
    (hbelow : c.dvmReady = true → PagesBelow c limit)
    (hrange : rq.origFirst + rq.origCount ≤ limit)
    (hlimit : limit ≤ lbaRange) :
    Claimed rq limit (dvmCacheClaim c rq.pdrv) st := by
  rcases dvmCacheClaim_cases c rq.pdrv with
    ⟨hunused, hlist⟩ | ⟨heq, hready, hmagic, howner⟩
  · exact ⟨hlist, fun p hp => absurd hp (hunused p),
      fun p hp => absurd hp (hunused p), hrange, hlimit⟩
  · have hpages := h.pages ⟨hready, hmagic, henabled⟩
    rw [← howner] at hpages
    rw [heq]
    exact ⟨h.list hready, hbelow hready, hpages, hrange, hlimit⟩

/-- The cache and the drives. -/
structure System (n : Nat) where
  cache : DvmCache n
  storage : Storage

/-- What happens to the cache between boot and the end of a run. -/
inductive Call where
  | read (pdrv : Nat) (buff : UserBuffer) (sector count : Nat)
  | write (pdrv : Nat) (buff : UserBuffer) (sector count : Nat)
  | invalidate
  | disable
  | enable
  /-- The page region is zeroed, the magic included. -/
  | wipe
  /-- The page region is overwritten. -/
  | overwrite (pages : Nat → Nat → SectorData) (magic : Nat)

/-- The effect of a call, whatever the fuel it took. -/
inductive CallStep : System n → Call → System n → Prop where
  | read {s : System n} {pdrv : Nat} {buff : UserBuffer} {sector count : Nat}
      {fuel : Nat} {r : AccessResult n}
      (hrange : sector + count ≤ uintRange)
      (hr : dvmCacheRead fuel s.cache s.storage pdrv buff sector count = some r) :
      CallStep s (.read pdrv buff sector count) ⟨r.cache, r.storage⟩
  | write {s : System n} {pdrv : Nat} {buff : UserBuffer} {sector count : Nat}
      {fuel : Nat} {r : AccessResult n}
      (hrange : sector + count ≤ uintRange)
      (hr : dvmCacheWrite fuel s.cache s.storage pdrv buff sector count = some r) :
      CallStep s (.write pdrv buff sector count) ⟨r.cache, r.storage⟩
  | invalidate {s : System n} :
      CallStep s .invalidate ⟨dvmCacheInvalidate s.cache, s.storage⟩
  | disable {s : System n} :
      CallStep s .disable ⟨dvmCacheDisable s.cache, s.storage⟩
  | enable {s : System n} :
      CallStep s .enable ⟨dvmCacheEnable s.cache, s.storage⟩
  | wipe {s : System n} :
      CallStep s .wipe
        ⟨{ s.cache with dvmCacheData := fun _ _ _ => 0, dvmMagic := 0 }, s.storage⟩
  | overwrite {s : System n} {pages : Nat → Nat → SectorData} {magic : Nat}
      (hdisabled : s.cache.dvmDisabled = true) :
      CallStep s (.overwrite pages magic)
        ⟨{ s.cache with dvmCacheData := fun p => pages p, dvmMagic := magic },
          s.storage⟩

/--
The cache at boot, over drives that accept every raw write: the variables in
`.bss` are clear, the page region holds anything.
-/
structure Boot (s : System n) : Prop where
  notReady : s.cache.dvmReady = false
  enabled : s.cache.dvmDisabled = false
  accepting : ∀ k, s.storage.writeOutcome k = true

/-- The cache as `.bss` has it at boot, over a page region of zeros. -/
def DvmCache.atBoot (n : Nat) : DvmCache n where
  dvmMagic := 0
  dvmCacheData := fun _ _ _ => 0
  next := fun _ => none
  prev := fun _ => none
  baseSector := fun _ => 0
  dvmListNext := none
  dvmListPrev := none
  dvmOwnerPdrv := 0
  dvmReady := false
  dvmDisabled := false

/-- Blank drives that deliver every read and answer every write the same way. -/
def Storage.blank (accepts : Bool) : Storage where
  sectors := fun _ _ _ => 0
  readOutcome := fun _ => .delivered
  writeOutcome := fun _ => accepts
  reads := 0
  writes := 0

/-- A buffer at address 0 whose bytes are all `b`. -/
def UserBuffer.filled (b : UInt8) : UserBuffer where
  addr := 0
  data := fun _ _ => b

/-- The states of the cache in all runs. -/
abbrev System.Reachable (s : System n) : Prop :=
  Runs.Reachable Boot (anyStep CallStep) s

/-- What every call keeps. -/
structure System.Valid (s : System n) : Prop where
  coherent : Coherent s.cache s.storage
  below : s.cache.dvmReady = true → PagesBelow s.cache uintRange
  known : s.cache.dvmReady = true →
    ∀ p, s.cache.Used p → diskIsKnown s.cache.dvmOwnerPdrv = true
  accepting : ∀ k, s.storage.writeOutcome k = true

theorem System.Valid.of_not_ready
    {s : System n} (h : s.cache.dvmReady = false)
    (haccept : ∀ k, s.storage.writeOutcome k = true) :
    s.Valid where
  coherent := Coherent.of_not_ready h
  below := fun hr => by rw [h] at hr; cases hr
  known := fun hr => by rw [h] at hr; cases hr
  accepting := haccept

/-- After a request on an enabled cache. -/
theorem System.Valid.after_access
    {c c' : DvmCache n} {st' : Storage} {pdrv : Nat}
    (henabled : c.dvmDisabled = false)
    (hflags : SameFlags (dvmCacheClaim c pdrv) c')
    (hlist : ∃ order, ListInvariant c' order)
    (hbelow : PagesBelow c' uintRange)
    (hpages : PagesMatch c' st' pdrv)
    (hknown : ∀ p, c'.Used p → diskIsKnown pdrv = true)
    (haccept : ∀ k, st'.writeOutcome k = true) :
    System.Valid ⟨c', st'⟩ := by
  obtain ⟨_, _, howner, hdisabled⟩ := dvmCacheClaim_flags c pdrv
  have howner' : c'.dvmOwnerPdrv = pdrv := hflags.owner.trans howner
  have hdisabled' : c'.dvmDisabled = false :=
    (hflags.disabled.trans hdisabled).trans henabled
  refine
    { coherent :=
        { list := fun _ => hlist
          pages := fun _ => ?_
          idle := fun _ hd => absurd hd (by simp [hdisabled']) }
      below := fun _ => hbelow
      known := fun _ p hp => ?_
      accepting := haccept }
  · rw [howner']
    exact hpages
  · show diskIsKnown c'.dvmOwnerPdrv = true
    rw [howner']
    exact hknown p hp

/-- The drive of the used pages of a claimed cache is a known one. -/
theorem System.Valid.claim_known
    {s : System n} (h : s.Valid) (pdrv : Nat) :
    ∀ p, (dvmCacheClaim s.cache pdrv).Used p → diskIsKnown pdrv = true := by
  intro p hp
  rcases dvmCacheClaim_cases s.cache pdrv with
    ⟨hunused, _⟩ | ⟨heq, hready, _, howner⟩
  · exact absurd hp (hunused p)
  · rw [heq] at hp
    rw [howner]
    exact h.known hready p hp

section Requests

variable {s : System n} {pdrv sector count : Nat} {buff : UserBuffer}

/-- What `dvm_cache_read` leaves behind. -/
theorem dvmCacheRead_spec
    (h : s.Valid) (hn : 0 < n) (hrange : sector + count ≤ uintRange)
    {fuel : Nat} {r : AccessResult n}
    (hr : dvmCacheRead fuel s.cache s.storage pdrv buff sector count = some r) :
    System.Valid ⟨r.cache, r.storage⟩ ∧
      r.storage.sectors = s.storage.sectors ∧
      (r.res = .resOk →
        ∀ i < count, r.buffer i = s.storage.sectors pdrv (sector + i)) := by
  unfold dvmCacheRead at hr
  split at hr
  · cases hr
    exact ⟨h, rfl, fun _ i hi => by omega⟩
  · split at hr
    · rename_i hdisabled
      cases hr
      refine ⟨⟨⟨h.coherent.list, ?_, h.coherent.idle⟩, h.below, h.known, ?_⟩,
        diskReadRaw_sectors, fun hok i hi => ?_⟩
      · intro hi
        exact absurd hi.2.2 (by simp [hdisabled])
      · simpa using h.accepting
      · obtain ⟨_, hbuff⟩ := diskReadRaw_ok hok
        show (diskReadRaw s.storage pdrv buff.data 0 sector count).buff i = _
        rw [hbuff, copyRange_inside (by omega) (by omega)]
        rfl
    · rename_i hdisabled
      have henabled : s.cache.dvmDisabled = false := by simpa using hdisabled
      have hpost := dvmCacheAccess_read
        (h.coherent.claim henabled h.below hrange (by decide))
        (h.claim_known pdrv) rfl hn hr
      refine ⟨.after_access henabled hpost.flags hpost.list hpost.below
        hpost.pages hpost.known ?_, hpost.drives, hpost.delivered⟩
      rw [hpost.outcomes]
      exact h.accepting

theorem dvmCacheRead_returns
    (h : s.Valid) (hn : 0 < n) (hrange : sector + count ≤ uintRange) :
    ∃ fuel r,
      dvmCacheRead fuel s.cache s.storage pdrv buff sector count = some r := by
  unfold dvmCacheRead
  split
  · exact ⟨0, _, rfl⟩
  · split
    · exact ⟨0, _, rfl⟩
    · rename_i hdisabled
      have henabled : s.cache.dvmDisabled = false := by simpa using hdisabled
      exact dvmCacheAccess_read_returns
        (h.coherent.claim henabled h.below hrange (by decide))
        (h.claim_known pdrv) rfl hn le_rfl

/-- What `dvm_cache_write` leaves behind. -/
theorem dvmCacheWrite_spec
    (h : s.Valid) (hrange : sector + count ≤ uintRange)
    {fuel : Nat} {r : AccessResult n}
    (hr : dvmCacheWrite fuel s.cache s.storage pdrv buff sector count = some r) :
    System.Valid ⟨r.cache, r.storage⟩ ∧
      r.storage.sectors =
        (diskWriteRaw s.storage pdrv buff.data 0 sector count).storage.sectors := by
  unfold dvmCacheWrite at hr
  split at hr
  · rename_i hzero
    cases hr
    exact ⟨h, by rw [hzero, diskWriteRaw_empty]⟩
  · split at hr
    · rename_i hdisabled
      cases hr
      refine ⟨⟨⟨h.coherent.list, ?_, h.coherent.idle⟩, h.below, h.known, ?_⟩, rfl⟩
      · intro hi
        exact absurd hi.2.2 (by simp [hdisabled])
      · simpa using h.accepting
    · rename_i hcount hdisabled
      have henabled : s.cache.dvmDisabled = false := by simpa using hdisabled
      have hknown := h.claim_known pdrv
      have hpost := dvmCacheAccess_write
        (h.coherent.claim henabled h.below hrange (by decide))
        hknown h.accepting rfl (Nat.pos_of_ne_zero hcount) hr
      refine ⟨.after_access henabled hpost.flags hpost.list hpost.below
        hpost.pages (fun p hp => hknown p ?_) ?_, hpost.drives⟩
      · unfold DvmCache.Used at hp ⊢
        rwa [hpost.base] at hp
      · rw [hpost.outcomes]
        exact h.accepting

theorem dvmCacheWrite_returns
    (h : s.Valid) (hrange : sector + count ≤ uintRange) :
    ∃ fuel r,
      dvmCacheWrite fuel s.cache s.storage pdrv buff sector count = some r := by
  unfold dvmCacheWrite
  split
  · exact ⟨0, _, rfl⟩
  · split
    · exact ⟨0, _, rfl⟩
    · rename_i hdisabled
      have henabled : s.cache.dvmDisabled = false := by simpa using hdisabled
      exact dvmCacheAccess_write_returns
        (h.coherent.claim henabled h.below hrange (by decide)) rfl le_rfl

end Requests

/-- Every call keeps what the cache relies on. -/
theorem CallStep.valid
    {s s' : System n} {call : Call} (hn : 0 < n)
    (h : s.Valid) (hs : CallStep s call s') :
    s'.Valid := by
  cases hs with
  | read hrange hr => exact (dvmCacheRead_spec h hn hrange hr).1
  | write hrange hr => exact (dvmCacheWrite_spec h hrange hr).1
  | invalidate =>
      exact ⟨Coherent.reset _ _, fun _ p hp => absurd hp (dvmCacheReset_unused _ p),
        fun _ p hp => absurd hp (dvmCacheReset_unused _ p), h.accepting⟩
  | disable => exact .of_not_ready rfl h.accepting
  | enable => exact .of_not_ready rfl h.accepting
  | wipe =>
      refine ⟨⟨fun hr => ?_, fun hi => absurd hi.2.1 (by decide : 0 ≠ dvmMagicValue),
        h.coherent.idle⟩, h.below, h.known, h.accepting⟩
      obtain ⟨order, hlist⟩ := h.coherent.list hr
      exact ⟨order, hlist.withPages _ _⟩
  | overwrite hdisabled =>
      refine ⟨⟨fun hr => ?_, fun hi => absurd hi.2.2 (by simp [hdisabled]),
        h.coherent.idle⟩, h.below, h.known, h.accepting⟩
      obtain ⟨order, hlist⟩ := h.coherent.list hr
      exact ⟨order, hlist.withPages _ _⟩

theorem System.Reachable.valid
    {s : System n} (hn : 0 < n) (h : s.Reachable) :
    s.Valid :=
  h.invariant (fun _ hboot => .of_not_ready hboot.notReady hboot.accepting)
    (fun _ _ hvalid ⟨_, hs⟩ => hs.valid hn hvalid)

/--
In every reachable state a read and a write of any drive return.  A read that
succeeds delivers the sectors of the drive and changes none, and a write leaves
the drives as the raw write of the same request does.
-/
theorem dvm_cache_transparent
    {s : System n} (hn : 0 < n) (h : s.Reachable)
    (pdrv : Nat) (buff : UserBuffer) (sector count : Nat)
    (hrange : sector + count ≤ uintRange) :
    (∃ fuel r,
      dvmCacheRead fuel s.cache s.storage pdrv buff sector count = some r) ∧
    (∀ fuel r,
      dvmCacheRead fuel s.cache s.storage pdrv buff sector count = some r →
        r.storage.sectors = s.storage.sectors ∧
        (r.res = .resOk →
          ∀ i < count, r.buffer i = s.storage.sectors pdrv (sector + i))) ∧
    (∃ fuel r,
      dvmCacheWrite fuel s.cache s.storage pdrv buff sector count = some r) ∧
    (∀ fuel r,
      dvmCacheWrite fuel s.cache s.storage pdrv buff sector count = some r →
        r.storage.sectors =
          (diskWriteRaw s.storage pdrv buff.data 0 sector count).storage.sectors) := by
  have hvalid := h.valid hn
  refine ⟨dvmCacheRead_returns hvalid hn hrange, fun fuel r hr => ?_,
    dvmCacheWrite_returns hvalid hrange, fun fuel r hr => ?_⟩
  · exact (dvmCacheRead_spec hvalid hn hrange hr).2
  · exact (dvmCacheWrite_spec hvalid hrange hr).2

/--
A read after three other calls, on the build with 32 pages: it finds what the second one
wrote, and the drive is not read again.
-/
theorem dvm_cache_transparent_hit :
    ∃ (s : System 32) (r : AccessResult 32), s.Reachable ∧
      s.storage.reads = 1 ∧ s.storage.writes = 1 ∧ s.storage.sectors 0 5 0 = 1 ∧
      dvmCacheRead 4 s.cache s.storage 0 (.filled 0) 5 2 = some r ∧ r.storage.reads = 1 ∧
      r.res = .resOk ∧ ∀ i < 2, r.buffer i = s.storage.sectors 0 (5 + i) := by
  obtain ⟨r₁, r₂, r₃, r, hr₁, hr₂, hr₃, hreads, hwrites, hsector, hr, hreads', hres⟩ :
      ∃ r₁ r₂ r₃ r : AccessResult 32,
        dvmCacheRead 4 (.atBoot 32) (.blank true) 0 (.filled 0) 5 2 = some r₁ ∧
        dvmCacheWrite 4 r₁.cache r₁.storage 0 (.filled 1) 5 1 = some r₂ ∧
        dvmCacheRead 4 r₂.cache r₂.storage 0 (.filled 0) 4 2 = some r₃ ∧
        r₃.storage.reads = 1 ∧ r₃.storage.writes = 1 ∧ r₃.storage.sectors 0 5 0 = 1 ∧
        dvmCacheRead 4 r₃.cache r₃.storage 0 (.filled 0) 5 2 = some r ∧
        r.storage.reads = 1 ∧ r.res = .resOk :=
    ⟨_, _, _, _, rfl, rfl, rfl, rfl, rfl, rfl, rfl, rfl, rfl⟩
  have hboot : System.Reachable ⟨DvmCache.atBoot 32, .blank true⟩ :=
    .start ⟨rfl, rfl, fun _ => rfl⟩
  have hreached : System.Reachable ⟨r₃.cache, r₃.storage⟩ :=
    ((hboot.step ⟨_, .read (by decide) hr₁⟩).step ⟨_, .write (by decide) hr₂⟩).step
      ⟨_, .read (by decide) hr₃⟩
  exact ⟨_, r, hreached, hreads, hwrites, hsector, hr, hreads', hres,
    ((dvm_cache_transparent (by decide) hreached 0 (.filled 0) 5 2 (by decide)).2.1 4 r
      hr).2 hres⟩

end Dvm
end Cubiboot
