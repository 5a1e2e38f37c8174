import Cubiboot.DvmCache.Diskio
import Cubiboot.Foundations.FuelLoop
import Mathlib.Algebra.Group.Nat.Defs

/-!
# The block cache

Translation of `dvm_cache.c`.  The cache is generic in the number of pages, so
both builds (192 pages in the IPL, 32 in `cubeboot.dol`) are instances.

A pointer to an entry is `Option (Fin n)`. A function returns `none` where the C code
would dereference `NULL` or follow a list for ever; the list invariant excludes both.
The loop of a request is run with fuel, and `none` also means that the fuel did not
suffice. `LBA_t` is a natural number below `2 ^ 64` and `UINT` one below `2 ^ 32`, with
the conversions of the source written out.

The functions are in the order of the source: the list of the entries, the search for a
page, the claim of the cache by a drive, and the loop of `dvm_cache_access` with its
three branches, `accessHit`, `accessFill` and `accessDirect`.
-/

namespace Cubiboot
namespace Dvm

open CopyRange

/-- `DVM_PAGE_SECTORS`. -/
abbrev dvmPageSectors : Nat := 4

/-- `DVM_BUFFER_ALIGN`. -/
abbrev dvmBufferAlign : Nat := 32

/-- Values of `LBA_t`. -/
abbrev lbaRange : Nat := 2 ^ 64

/-- Values of `UINT`. -/
abbrev uintRange : Nat := 2 ^ 32

/-- `DVM_EMPTY_PAGE`. -/
abbrev dvmEmptyPage : Nat := 2 ^ 64 - 1

/-- `DVM_MAGIC`. -/
abbrev dvmMagicValue : Nat := 0x44564D31

/--
The static variables of `dvm_cache.c`.  `next`, `prev` and `baseSector` are the
fields of `dvm_entries[]`.
-/
structure DvmCache (n : Nat) where
  dvmMagic : Nat
  dvmCacheData : Fin n → Nat → SectorData
  next : Fin n → Option (Fin n)
  prev : Fin n → Option (Fin n)
  baseSector : Fin n → Nat
  dvmListNext : Option (Fin n)
  dvmListPrev : Option (Fin n)
  dvmOwnerPdrv : Nat
  dvmReady : Bool
  dvmDisabled : Bool

variable {n : Nat}

/-- `&dvm_entries[i]`, where there is such an entry. -/
def dvmEntryAt (i : Nat) : Option (Fin n) :=
  if h : i < n then some ⟨i, h⟩ else none

/-- `dvm_cache_reset`. -/
def dvmCacheReset (c : DvmCache n) : DvmCache n :=
  { c with
    dvmListNext := dvmEntryAt 0
    dvmListPrev := dvmEntryAt (n - 1)
    next := fun i => dvmEntryAt (i.val + 1)
    prev := fun i => if i.val = 0 then none else dvmEntryAt (i.val - 1)
    baseSector := fun _ => dvmEmptyPage
    dvmMagic := dvmMagicValue
    dvmReady := true }

/-- `dvm_cache_invalidate`. -/
def dvmCacheInvalidate (c : DvmCache n) : DvmCache n :=
  dvmCacheReset c

/-- `dvm_cache_disable`. -/
def dvmCacheDisable (c : DvmCache n) : DvmCache n :=
  { c with dvmDisabled := true, dvmReady := false }

/-- `dvm_cache_enable`. -/
def dvmCacheEnable (c : DvmCache n) : DvmCache n :=
  { c with dvmDisabled := false, dvmReady := false }

/-- `dvm_cache_claim`. -/
def dvmCacheClaim (c : DvmCache n) (pdrv : Nat) : DvmCache n :=
  if c.dvmMagic ≠ dvmMagicValue ∨ c.dvmReady = false ∨ pdrv ≠ c.dvmOwnerPdrv then
    { dvmCacheReset c with dvmOwnerPdrv := pdrv }
  else
    c

/-- `dvm_is_aligned`. -/
def dvmIsAligned (ptr : Nat) : Bool :=
  ptr % dvmBufferAlign == 0

/-- The loop of `dvm_cache_search`; a walk of more than `n` entries never ends. -/
def dvmCacheSearchLoop
    (c : DvmCache n) (pageSector : Nat) :
    Nat → Option (Fin n) → Nat → Option (Fin n) → Option (Option (Fin n))
  | _, none, _, ret => some ret
  | 0, some _, _, _ => none
  | fuel + 1, some p, minSec, ret =>
      if c.baseSector p = dvmEmptyPage then
        some ret
      else if c.baseSector p = pageSector then
        some (some p)
      else if c.baseSector p > pageSector ∧ c.baseSector p < minSec then
        dvmCacheSearchLoop c pageSector fuel (c.next p) (c.baseSector p) (some p)
      else
        dvmCacheSearchLoop c pageSector fuel (c.next p) minSec ret

/-- `dvm_cache_search`. -/
def dvmCacheSearch
    (c : DvmCache n) (pageSector : Nat) : Option (Option (Fin n)) :=
  dvmCacheSearchLoop c pageSector n c.dvmListNext dvmEmptyPage none

/-- First half of `dvm_cache_promote`: its neighbours are linked past `p`. -/
def detachEntry (c : DvmCache n) (p before : Fin n) : DvmCache n :=
  let c := { c with next := Function.update c.next before (c.next p) }
  match c.next p with
  | some after => { c with prev := Function.update c.prev after (c.prev p) }
  | none => { c with dvmListPrev := c.prev p }

/-- Second half of `dvm_cache_promote`: `p` is linked in at the front. -/
def attachFront (c : DvmCache n) (p : Fin n) : Option (DvmCache n) :=
  let c := { c with next := Function.update c.next p c.dvmListNext }
  match c.next p with
  | none => none
  | some first =>
      let c := { c with prev := Function.update c.prev first (some p) }
      let c := { c with prev := Function.update c.prev p none }
      some { c with dvmListNext := some p }

/-- `dvm_cache_promote`. -/
def dvmCachePromote
    (c : DvmCache n) (p : Fin n) : Option (DvmCache n) :=
  if c.dvmListNext = some p then
    some c
  else
    match c.prev p with
    | none => none
    | some before => attachFront (detachEntry c p before) p

/-- The loop of `dvm_cache_evict`. -/
def dvmCacheEvictLoop (c : DvmCache n) : Nat → Fin n → Option (Fin n)
  | 0, _ => none
  | fuel + 1, p =>
      if c.baseSector p = dvmEmptyPage then
        match c.prev p with
        | some before =>
            if c.baseSector before = dvmEmptyPage then
              dvmCacheEvictLoop c fuel before
            else
              some p
        | none => some p
      else
        some p

/-- `dvm_cache_evict`. -/
def dvmCacheEvict (c : DvmCache n) : Option (Fin n) :=
  match c.dvmListPrev with
  | none => none
  | some p => dvmCacheEvictLoop c n p

/-- The parameters of one `dvm_cache_access` call and what it derives from them. -/
structure AccessRequest where
  pdrv : Nat
  origFirst : Nat
  origCount : Nat
  isAligned : Bool
  isWrite : Bool

/-- `is_partial`. -/
def AccessRequest.isPartial (rq : AccessRequest) : Bool :=
  decide (rq.origCount < dvmPageSectors)

/--
The variables of `dvm_cache_access` between two iterations, with the cache and
the device.  `done` is the distance of `buffer` from `orig_buffer` in sectors.
-/
structure AccessState (n : Nat) where
  cache : DvmCache n
  storage : Storage
  buffer : Nat → SectorData
  done : Nat
  firstSector : Nat
  numSectors : Nat
  p : Option (Fin n)
  searchBase : Nat

/-- What a call of the cache leaves behind. -/
structure AccessResult (n : Nat) where
  res : DResult
  buffer : Nat → SectorData
  cache : DvmCache n
  storage : Storage

/-- `cur_page_sector`. -/
def AccessState.curPageSector (s : AccessState n) : Nat :=
  s.firstSector - s.firstSector % dvmPageSectors

/-- `cur_page_offset`. -/
def AccessState.curPageOffset (s : AccessState n) : Nat :=
  s.firstSector % dvmPageSectors

/-- `cur_sectors` as first computed in an iteration. -/
def AccessState.curSectors (s : AccessState n) : Nat :=
  min s.numSectors (dvmPageSectors - s.curPageOffset)

/-- `is_whole`. -/
def AccessState.isWhole (s : AccessState n) : Bool :=
  s.curPageOffset == 0 && s.curSectors == dvmPageSectors

/-- The three updates at the end of an iteration. -/
def AccessState.advance (s : AccessState n) (curSectors : Nat) : AccessState n :=
  { s with
    done := s.done + curSectors
    firstSector := (s.firstSector + curSectors) % lbaRange
    numSectors := s.numSectors - curSectors }

/-- The search at the top of an iteration, when it is due. -/
def AccessState.lookup (s : AccessState n) : Option (AccessState n) :=
  if s.curPageSector ≥ s.searchBase then
    (dvmCacheSearch s.cache s.curPageSector).map fun p =>
      { s with
        p := p
        searchBase :=
          match p with
          | some q => (s.cache.baseSector q + 1) % lbaRange
          | none => dvmEmptyPage }
  else
    some s

/-- Promotion at the end of the hit branch. -/
def AccessState.promoteHit
    (s : AccessState n) (q : Fin n) : Option (AccessState n) :=
  if s.isWhole then
    some s
  else
    (dvmCachePromote s.cache q).map fun c => { s with cache := c }

/-- The cache hit branch. -/
def accessHit
    (rq : AccessRequest) (s : AccessState n) (q : Fin n) :
    Option (AccessState n ⊕ AccessResult n) :=
  if rq.isWrite then
    let c :=
      { s.cache with
        dvmCacheData :=
          Function.update s.cache.dvmCacheData q
            (copyRange (s.cache.dvmCacheData q) s.curPageOffset s.curSectors
              (fun i => s.buffer (s.done + i))) }
    let w := diskWriteRaw s.storage rq.pdrv s.buffer s.done s.firstSector s.curSectors
    let s' := { s with cache := c, storage := w.storage }
    if w.res ≠ .resOk then
      some (.inr ⟨.resError, s'.buffer, s'.cache, s'.storage⟩)
    else
      (s'.promoteHit q).map fun s' => .inl (s'.advance s.curSectors)
  else
    let s' :=
      { s with
        buffer :=
          copyRange s.buffer s.done s.curSectors
            (fun i => s.cache.dvmCacheData q (s.curPageOffset + i)) }
    (s'.promoteHit q).map fun s' => .inl (s'.advance s.curSectors)

/-- The page fill branch. -/
def accessFill
    (rq : AccessRequest) (s : AccessState n) :
    Option (AccessState n ⊕ AccessResult n) :=
  match dvmCacheEvict s.cache with
  | none => none
  | some p =>
      let r :=
        diskReadRaw s.storage rq.pdrv (s.cache.dvmCacheData p) 0
          s.curPageSector dvmPageSectors
      let c :=
        { s.cache with
          baseSector := Function.update s.cache.baseSector p s.curPageSector
          dvmCacheData := Function.update s.cache.dvmCacheData p r.buff }
      if r.res ≠ .resOk then
        -- the page is blanked and the whole request served uncached
        let c :=
          { c with baseSector := Function.update c.baseSector p dvmEmptyPage }
        let d := diskReadRaw r.storage rq.pdrv s.buffer 0 rq.origFirst rq.origCount
        some (.inr ⟨d.res, d.buff, c, d.storage⟩)
      else
        (dvmCachePromote c p).map fun c =>
          .inl
            { s with
              cache := c
              storage := r.storage
              p := some p
              searchBase := (s.curPageSector + 1) % lbaRange }

/-- `cur_sectors` of the direct branch, cut to `UINT` as the source cuts it. -/
def AccessState.directSectors (s : AccessState n) : Nat :=
  min s.numSectors
    (match s.p with
    | some q =>
        (s.cache.baseSector q + lbaRange - s.firstSector) % lbaRange % uintRange
    | none => s.numSectors)

/-- The straight transfer branch. -/
def accessDirect
    (rq : AccessRequest) (s : AccessState n) :
    Option (AccessState n ⊕ AccessResult n) :=
  if rq.isWrite then
    let w :=
      diskWriteRaw s.storage rq.pdrv s.buffer s.done s.firstSector s.directSectors
    if w.res ≠ .resOk then
      some (.inr ⟨w.res, s.buffer, s.cache, w.storage⟩)
    else
      some (.inl ({ s with storage := w.storage }.advance s.directSectors))
  else
    let r :=
      diskReadRaw s.storage rq.pdrv s.buffer s.done s.firstSector s.directSectors
    if r.res ≠ .resOk then
      some (.inr ⟨r.res, r.buff, s.cache, r.storage⟩)
    else
      some (.inl
        ({ s with buffer := r.buff, storage := r.storage }.advance s.directSectors))

/-- The two branches of an iteration that did not hit. -/
def accessMiss
    (rq : AccessRequest) (s : AccessState n) :
    Option (AccessState n ⊕ AccessResult n) :=
  if !rq.isWrite && (rq.isPartial || !rq.isAligned) then
    accessFill rq s
  else
    accessDirect rq s

/-- The branches of an iteration, once the search result is in place. -/
def accessBranch
    (rq : AccessRequest) (s : AccessState n) :
    Option (AccessState n ⊕ AccessResult n) :=
  match s.p with
  | some q =>
      if s.cache.baseSector q = s.curPageSector then
        accessHit rq s q
      else
        accessMiss rq s
  | none => accessMiss rq s

/-- One iteration of the loop of `dvm_cache_access`. -/
def accessStep
    (rq : AccessRequest) (s : AccessState n) :
    Option (AccessState n ⊕ AccessResult n) :=
  s.lookup.bind (accessBranch rq)

/-- The loop of `dvm_cache_access`: its test, then one iteration. -/
def accessLoop
    (rq : AccessRequest) (s : AccessState n) :
    Option (AccessState n ⊕ AccessResult n) :=
  if s.numSectors = 0 then
    some (.inr ⟨.resOk, s.buffer, s.cache, s.storage⟩)
  else
    accessStep rq s

/-- The state in which the loop of `dvm_cache_access` starts. -/
def accessStart
    (rq : AccessRequest) (c : DvmCache n) (st : Storage)
    (buffer : Nat → SectorData) : AccessState n :=
  { cache := c
    storage := st
    buffer := buffer
    done := 0
    firstSector := rq.origFirst
    numSectors := rq.origCount
    p := none
    searchBase := 0 }

/-- `dvm_cache_access`. -/
def dvmCacheAccess
    (fuel : Nat) (rq : AccessRequest) (c : DvmCache n) (st : Storage)
    (buffer : Nat → SectorData) : Option (AccessResult n) :=
  FuelLoop.run (accessLoop rq) fuel (accessStart rq c st buffer)

/-- A caller's buffer: its address and its contents. -/
structure UserBuffer where
  addr : Nat
  data : Nat → SectorData

/-- `dvm_cache_read`. -/
def dvmCacheRead
    (fuel : Nat) (c : DvmCache n) (st : Storage)
    (pdrv : Nat) (buff : UserBuffer) (sector count : Nat) :
    Option (AccessResult n) :=
  if count = 0 then
    some ⟨.resOk, buff.data, c, st⟩
  else if c.dvmDisabled then
    let r := diskReadRaw st pdrv buff.data 0 sector count
    some ⟨r.res, r.buff, c, r.storage⟩
  else
    dvmCacheAccess fuel
      { pdrv := pdrv
        origFirst := sector
        origCount := count
        isAligned := dvmIsAligned buff.addr
        isWrite := false }
      (dvmCacheClaim c pdrv) st buff.data

/-- `dvm_cache_write`. -/
def dvmCacheWrite
    (fuel : Nat) (c : DvmCache n) (st : Storage)
    (pdrv : Nat) (buff : UserBuffer) (sector count : Nat) :
    Option (AccessResult n) :=
  if count = 0 then
    some ⟨.resOk, buff.data, c, st⟩
  else if c.dvmDisabled then
    let w := diskWriteRaw st pdrv buff.data 0 sector count
    some ⟨w.res, buff.data, c, w.storage⟩
  else
    dvmCacheAccess fuel
      { pdrv := pdrv
        origFirst := sector
        origCount := count
        isAligned := dvmIsAligned buff.addr
        isWrite := true }
      (dvmCacheClaim c pdrv) st buff.data

end Dvm
end Cubiboot
