import Cubiboot.DvmCache.LruRuns

/-!
# The list of entries over all runs

Whatever is asked of the cache, its entries stay on one list, the unused ones last, and no
two of them hold the same page, with one exception.  A read through the cache that has gone
past the last sector goes on at sector 0 without a new search, and reads page 0 into a
second entry when it is cached already.

A run goes from iteration to iteration of `dvm_cache_access`, so that what holds of its
states holds in the middle of a request too, and of requests that never return.

Results: `Serving.step` and `ListStep.ok`, what one iteration and one step of a run
keep; `cache_list_kept`, which iterations of a run break the list, and that no others
do.
-/

namespace Cubiboot
namespace Dvm

open FuelLoop

variable {n : Nat}

/-- The entries met by following `next`. -/
def DvmCache.follow (c : DvmCache n) : Nat → Option (Fin n) → List (Fin n)
  | 0, _ => []
  | _ + 1, none => []
  | k + 1, some p => p :: c.follow k (c.next p)

/-- The entries from the head on; there are at most `n`. -/
def DvmCache.listed (c : DvmCache n) : List (Fin n) :=
  c.follow (n + 1) c.dvmListNext

/-- The list is what the cache relies on. -/
structure ListKept (c : DvmCache n) : Prop where
  /-- Every entry is visited once, and then there is an end. -/
  visits : c.listed.Perm (List.finRange n)
  tail : c.listed.getLast? = c.dvmListPrev
  inverse : ∀ p q, c.next p = some q ↔ c.prev q = some p
  unusedLast : c.listed.Pairwise fun p q => ¬ c.Used p → ¬ c.Used q
  distinct : ∀ p q, c.Used p → c.baseSector p = c.baseSector q → p = q
  aligned : ∀ p, c.Used p → c.baseSector p % dvmPageSectors = 0

/-- The cache between two calls, or before an iteration of a request. -/
inductive Point (n : Nat) where
  | idle (cache : DvmCache n)
  | inside (rq : AccessRequest) (s : AccessState n)

def Point.cache : Point n → DvmCache n
  | .idle c => c
  | .inside _ s => s.cache

/-- Where an iteration leads. -/
def Point.after (rq : AccessRequest) : AccessState n ⊕ AccessResult n → Point n
  | .inl s => .inside rq s
  | .inr r => .idle r.cache

/--
What is done to the cache.  The entries that are promoted are used, and the pages that are
filled are in no entry, as the callers have found out.  Requests are of any drive, sectors
and buffer, and find the drives in any state; their iterations meet a condition.
-/
inductive ListStep (Meets : AccessRequest → AccessState n → Prop) : Point n → Point n → Prop
  | reset {c : DvmCache n} : ListStep Meets (.idle c) (.idle (dvmCacheReset c))
  | disable {c : DvmCache n} : ListStep Meets (.idle c) (.idle (dvmCacheDisable c))
  | enable {c : DvmCache n} : ListStep Meets (.idle c) (.idle (dvmCacheEnable c))
  /-- The page region is overwritten, with the magic. -/
  | overwrite {c : DvmCache n} (pages : Fin n → Nat → SectorData) (magic : Nat) :
      ListStep Meets (.idle c) (.idle { c with dvmCacheData := pages, dvmMagic := magic })
  | promote {c c' : DvmCache n} {p : Fin n}
      (hused : c.Used p) (hpromote : dvmCachePromote c p = some c') :
      ListStep Meets (.idle c) (.idle c')
  | fill {rq : AccessRequest} {s : AccessState n} {out : AccessState n ⊕ AccessResult n}
      (hfirst : s.firstSector < lbaRange)
      (hmiss : ∀ p, s.cache.Used p → s.cache.baseSector p ≠ s.curPageSector)
      (hfill : accessFill rq s = some out) :
      ListStep Meets (.idle s.cache) (.idle (Point.after rq out).cache)
  | request {c : DvmCache n} {rq : AccessRequest}
      (henabled : c.dvmDisabled = false) (hfirst : rq.origFirst < lbaRange)
      (st : Storage) (buffer : Nat → SectorData) :
      ListStep Meets (.idle c)
        (.inside rq (accessStart rq (dvmCacheClaim c rq.pdrv) st buffer))
  | iteration {rq : AccessRequest} {s : AccessState n} {out : AccessState n ⊕ AccessResult n}
      (hmeets : Meets rq s) (hout : accessLoop rq s = some out) :
      ListStep Meets (.inside rq s) (Point.after rq out)

/-- A cache that has just been reset. -/
def Started (x : Point n) : Prop :=
  ∃ c, x = .idle (dvmCacheReset c)

/-- The states that runs come to. -/
abbrev Comes (Meets : AccessRequest → AccessState n → Prop) (x : Point n) : Prop :=
  Runs.Reachable Started (ListStep Meets) x

/-- A read through the cache goes on at sector 0 after the last one, with another page in
hand. -/
structure ComesRound (rq : AccessRequest) (s : AccessState n) : Prop where
  cached : rq.isCached = true
  more : 0 < s.numSectors
  moved : 0 < s.done
  first : s.firstSector = 0
  other : ∀ q, s.p = some q → s.cache.baseSector q ≠ 0

/--
It does so while page 0 is cached, in an entry that is not the last one of the list, and
the drive delivers that page once more.
-/
structure Doubles (rq : AccessRequest) (s : AccessState n) : Prop extends ComesRound rq s where
  again : ∃ e, s.cache.baseSector e = 0 ∧ s.cache.dvmListPrev ≠ some e
  delivered : rawAnswer s.storage rq.pdrv false 0 = true

section Lists

variable {c : DvmCache n} {order : List (Fin n)}

/-- Following `next` from any suffix of the list visits that suffix. -/
theorem ListOrder.follow_eq (h : ListOrder c order) (seen rest : List (Fin n))
    (hsplit : order = seen ++ rest) {k : Nat} (hk : rest.length ≤ k) :
    c.follow k rest.head? = rest := by
  induction rest generalizing seen k with
  | nil =>
      cases k <;> rfl
  | cons p rest ih =>
      obtain ⟨k, rfl⟩ : ∃ j, k = j + 1 := ⟨k - 1, by simp only [List.length_cons] at hk; omega⟩
      have hnext : c.next p = rest.head? := by
        have hseg := h.segment
        rw [hsplit] at hseg
        simpa using hseg.fields.2
      have hrest : c.follow k rest.head? = rest := by
        refine ih (seen ++ [p]) (by simp [hsplit]) ?_
        simpa using hk
      rw [List.head?_cons, DvmCache.follow, hnext, hrest]

theorem ListInvariant.listed_eq (h : ListInvariant c order) : c.listed = order := by
  rw [DvmCache.listed, h.toListOrder.head]
  exact h.toListOrder.follow_eq [] order rfl (by rw [h.length_eq]; omega)

/-- The two pointers of neighbours agree. -/
theorem ListInvariant.next_iff_prev (h : ListInvariant c order) (p q : Fin n) :
    c.next p = some q ↔ c.prev q = some p := by
  have hseg := h.toListOrder.segment
  constructor
  · intro hnext
    obtain ⟨pre, post, hsplit⟩ := List.append_of_mem (h.complete p)
    rw [hsplit] at hseg
    have hhead : post.head? = some q := by
      rw [← hnext, hseg.fields.2, Option.or_none]
    obtain ⟨rest, rfl⟩ : ∃ rest, post = q :: rest := List.head?_eq_some_iff.1 hhead
    have hseg' : LinkedSegment.Segment c.next c.prev none ((pre ++ [p]) ++ q :: rest) none := by
      simpa using hseg
    rw [hseg'.fields.1]
    simp
  · intro hprev
    obtain ⟨pre, post, hsplit⟩ := List.append_of_mem (h.complete q)
    rw [hsplit] at hseg
    have hlast : pre.getLast? = some p := by
      rw [← hprev, hseg.fields.1, Option.or_none]
    obtain ⟨before, rfl⟩ := List.getLast?_eq_some_iff.1 hlast
    have hseg' : LinkedSegment.Segment c.next c.prev none (before ++ p :: q :: post) none := by
      simpa using hseg
    rw [hseg'.fields.2]
    rfl

theorem ListInvariant.kept (h : ListInvariant c order) : ListKept c where
  visits := by
    rw [h.listed_eq]
    exact (List.perm_ext_iff_of_nodup h.toListOrder.nodup (List.nodup_finRange n)).2
      fun p => by simp [h.complete p]
  tail := by
    rw [h.listed_eq]
    exact h.toListOrder.tail.symm
  inverse := h.next_iff_prev
  unusedLast := by
    rw [h.listed_eq]
    exact h.unusedLast
  distinct := h.distinct
  aligned := h.aligned

end Lists

/-- What holds between two iterations of a request of any kind. -/
structure Serving (rq : AccessRequest) (s : AccessState n) : Prop where
  list : ∃ order, ListInvariant s.cache order
  start : rq.origFirst < lbaRange
  count : s.done + s.numSectors = rq.origCount
  place : s.firstSector = (rq.origFirst + s.done) % lbaRange
  searched : rq.isCached = true → 0 < s.done → 0 < s.searchBase
  search : rq.isCached = true → 0 < s.numSectors → SearchOk s ∨ 0 < s.done ∧ Wraps s

/-- What holds at a point of a run. -/
def Point.Ok : Point n → Prop
  | .idle c => ∃ order, ListInvariant c order
  | .inside rq s => Serving rq s

section Iterations

variable {rq : AccessRequest} {s s' : AccessState n} {p : Option (Fin n)} {searchBase : Nat}
variable {out : AccessState n ⊕ AccessResult n}

theorem Serving.first_lt (h : Serving rq s) : s.firstSector < lbaRange := by
  rw [h.place]
  exact Nat.mod_lt _ (by decide)

/-- An entry of the page of an iteration is used. -/
theorem used_of_page {q : Fin n} (hq : s.cache.baseSector q = s.curPageSector) :
    s.cache.Used q := by
  have haligned := s.curPage_aligned
  intro hempty
  rw [← hq, hempty] at haligned
  exact absurd haligned (by decide)

theorem curPageSector_of_zero (h : s.firstSector = 0) : s.curPageSector = 0 := by
  rw [AccessState.curPageSector, h, Nat.zero_mod]

/-- A request that moves on. -/
theorem Moved.serving {k : Nat}
    (hm : Moved { s with p := p, searchBase := searchBase } s' k) (h : Serving rq s)
    (hk : k ≤ s.numSectors)
    (hsearched : rq.isCached = true → 0 < s'.searchBase)
    (hsearch : rq.isCached = true → k < s.numSectors → SearchOk s' ∨ 0 < s'.done ∧ Wraps s') :
    Serving rq s' where
  list := hm.list
  start := h.start
  count := by
    have hcount := h.count
    rw [hm.done, hm.num]
    show s.done + k + (s.numSectors - k) = rq.origCount
    omega
  place := by
    rw [hm.first, hm.done]
    show (s.firstSector + k) % lbaRange = (rq.origFirst + (s.done + k)) % lbaRange
    rw [h.place, Nat.mod_add_mod, Nat.add_assoc]
  searched := fun hcached _ => hsearched hcached
  search := fun hcached hpos => by
    rw [hm.num] at hpos
    exact hsearch hcached (Nat.lt_of_sub_pos hpos)

/-- A request whose page has been filled. -/
theorem Serving.filled
    (h : Serving rq s) {c' : DvmCache n} {order : List (Fin n)} {q : Fin n} (st : Storage)
    (hlist : ListInvariant c' order)
    (hbase : c'.baseSector = Function.update s.cache.baseSector q s.curPageSector) :
    Serving rq
      { s with cache := c', storage := st, p := some q, searchBase := s.curPageSector + 1 } where
  list := ⟨order, hlist⟩
  start := h.start
  count := h.count
  place := h.place
  searched := fun _ _ => Nat.succ_pos _
  search := fun _ _ => Or.inl fun _ => searchOk_after_fill st hbase

/-- When the search is right, page 0 is not read twice. -/
theorem SearchOk.not_doubles
    (h : SearchOk s) (hsearched : 0 < s.done → 0 < s.searchBase) : ¬ Doubles rq s := by
  intro hdoubles
  obtain ⟨e, hzero, _⟩ := hdoubles.again
  have hcur := curPageSector_of_zero hdoubles.first
  obtain ⟨hfound, _⟩ := h (by rw [hcur]; exact hsearched hdoubles.moved)
  have hused : s.cache.Used e := used_of_page (by rw [hcur, hzero])
  cases hp : s.p with
  | none =>
      rw [hp] at hfound
      have := hfound e hused
      omega
  | some q =>
      rw [hp] at hfound
      have hleast := hfound.2.2 e hused (by omega)
      exact hdoubles.other q hp (by omega)

/-- An iteration of a read through the cache, where the search is right. -/
theorem Serving.searchOk_step
    (h : Serving rq s) (hn : 0 < n) (hcached : rq.isCached = true) (hpos : 0 < s.numSectors)
    (hsearch : SearchOk s) (hout : accessLoop rq s = some out) :
    (Point.after rq out).Ok := by
  obtain ⟨p, searchBase, hlookup, hl⟩ := lookup_found h.list hsearch
  rw [accessLoop_eq hpos hlookup] at hout
  have hlist : ∃ order,
      ListInvariant { s with p := p, searchBase := searchBase }.cache order := h.list
  rcases accessBranch_cases rq { s with p := p, searchBase := searchBase } with
    ⟨q, hq, hhit, hbranch⟩ | ⟨hmiss, hbranch⟩
  · rw [hbranch] at hout
    rcases accessHit_moved rq hlist (used_of_page hhit) with ⟨s', hstep, hm⟩ | ⟨r, hr, hlist', _⟩
    · obtain rfl : .inl s' = out := Option.some.inj (hstep.symm.trans hout)
      have hmoves := AccessState.curSectors_pos
        (s := { s with p := p, searchBase := searchBase }) hpos
      refine hm.serving h AccessState.curSectors_le.2 (fun _ => ?_) fun _ hend => ?_
      · rw [hm.searchBase, hl.2 q hq]
        exact Nat.succ_pos _
      · rcases hm.after_hit h.first_lt hl hq hhit hend with ⟨_, _, hok⟩ | ⟨_, hwraps⟩
        · exact Or.inl hok
        · refine Or.inr ⟨?_, hwraps⟩
          rw [hm.done]
          omega
    · obtain rfl : .inr r = out := Option.some.inj (hr.symm.trans hout)
      exact hlist'
  · rw [hbranch, accessMiss_cached hcached] at hout
    obtain ⟨order, hlist⟩ := hlist
    obtain ⟨q, pre, post, c', r, _, _, _, _, _, _, _, hcase⟩ :=
      accessFill_order rq hlist hl hn h.first_lt hmiss
    rcases hcase with ⟨_, hlist', _, hfill⟩ | ⟨_, hlist', hbase, hfill⟩
    · obtain rfl := Option.some.inj (hfill.symm.trans hout)
      exact ⟨_, hlist'⟩
    · obtain rfl := Option.some.inj (hfill.symm.trans hout)
      exact h.filled r.storage hlist' hbase

/--
An iteration after the wrap reads page 0 without a search.  It is in two entries afterwards
when it was cached, and its entry is not the one that is taken: that is the last one, as
soon as it is used.
-/
theorem Serving.wraps_step
    (h : Serving rq s) (hn : 0 < n) (hcached : rq.isCached = true) (hpos : 0 < s.numSectors)
    (hmoved : 0 < s.done) (hwraps : Wraps s) (hout : accessLoop rq s = some out) :
    (¬ Doubles rq s → (Point.after rq out).Ok) ∧
      (Doubles rq s → ¬ ListKept (Point.after rq out).cache) := by
  obtain ⟨q, hq, hlast⟩ := hwraps.page
  have hcur := curPageSector_of_zero hwraps.first
  have hlookup : s.lookup = some s := by
    refine if_neg ?_
    rw [hcur, hwraps.search]
    decide
  have hother : ∀ q, s.p = some q → s.cache.baseSector q ≠ 0 := by
    intro r hr
    obtain rfl := Option.some.inj (hq.symm.trans hr)
    rw [hlast]
    decide
  have hbranch : accessLoop rq s = accessFill rq s := by
    have hmiss : s.cache.baseSector q ≠ s.curPageSector := by
      rw [hcur]
      exact hother q hq
    rw [accessLoop_eq hpos hlookup]
    simp only [accessBranch, hq, if_neg hmiss]
    exact accessMiss_cached hcached
  rw [hbranch] at hout
  obtain ⟨order, hlist⟩ := h.list
  obtain ⟨e, pre, post, c', r, rfl, _, hpost, hlastUsed, hr, _, _, hcase⟩ :=
    accessFill_taken rq hlist hn h.first_lt
  rcases hcase with ⟨hfail, hlist', _, hfill⟩ | ⟨hok, hclear, hbase, hfill⟩
  · obtain rfl := Option.some.inj (hfill.symm.trans hout)
    refine ⟨fun _ => ⟨_, hlist'⟩, fun hdoubles => absurd ?_ hfail⟩
    rw [hr]
    exact diskReadRaw_answer.2 hdoubles.delivered
  · obtain rfl := Option.some.inj (hfill.symm.trans hout)
    constructor
    · intro hsingle
      refine h.filled r.storage (hclear fun a hused hne hzero => ?_) hbase
      rw [hcur] at hzero
      refine hsingle ⟨⟨hcached, hpos, hmoved, hwraps.first, hother⟩, ⟨a, hzero, ?_⟩, ?_⟩
      · -- the last entry of the list is `e`, or unused
        intro htail
        rw [hlist.toListOrder.tail, List.getLast?_append_of_ne_nil pre (by simp)] at htail
        rcases List.mem_cons.1 (List.mem_of_getLast? htail) with rfl | ha
        · exact hne rfl
        · exact hpost a ha hused
      · rw [hr] at hok
        exact diskReadRaw_answer.1 hok
    · intro hdoubles hkept
      obtain ⟨a, hzero, hnot⟩ := hdoubles.again
      have hused : s.cache.Used a := used_of_page (by rw [hcur, hzero])
      have hne : a ≠ e := by
        rintro rfl
        refine hnot ?_
        rw [hlist.toListOrder.tail, hlastUsed hused]
        simp
      have hbase' : ∀ b, c'.baseSector b = if b = e then 0 else s.cache.baseSector b := by
        intro b
        rw [hbase, hcur, Function.update_apply]
      refine hne (hkept.distinct a e ?_ ?_)
      · show c'.baseSector a ≠ dvmEmptyPage
        rw [hbase', if_neg hne, hzero]
        decide
      · show c'.baseSector a = c'.baseSector e
        rw [hbase', hbase', if_neg hne, if_pos rfl, hzero]

/-- An iteration of a request that goes straight to the device. -/
theorem Serving.straight_step
    (h : Serving rq s) (hcached : rq.isCached = false) (hpos : 0 < s.numSectors)
    (hout : accessLoop rq s = some out) :
    (Point.after rq out).Ok := by
  have hno : ∀ {P : Prop}, rq.isCached = true → P := fun hyes =>
    absurd (hcached.symm.trans hyes) Bool.false_ne_true
  obtain ⟨order, hlist⟩ := h.list
  obtain ⟨p, searchBase, hlookup⟩ := hlist.walkable.lookup
  have hlist : ∃ order,
      ListInvariant { s with p := p, searchBase := searchBase }.cache order := h.list
  rw [accessLoop_eq hpos hlookup] at hout
  rcases accessBranch_cases rq { s with p := p, searchBase := searchBase } with
    ⟨q, _, hhit, hbranch⟩ | ⟨_, hbranch⟩
  · rw [hbranch] at hout
    rcases accessHit_moved rq hlist (used_of_page hhit) with ⟨s', hstep, hm⟩ | ⟨r, hr, hlist', _⟩
    · obtain rfl : .inl s' = out := Option.some.inj (hstep.symm.trans hout)
      exact hm.serving h AccessState.curSectors_le.2 hno fun hyes => hno hyes
    · obtain rfl : .inr r = out := Option.some.inj (hr.symm.trans hout)
      exact hlist'
  · rw [hbranch, accessMiss_straight hcached] at hout
    rcases accessDirect_moves rq hlist with ⟨s', hstep, _, hm⟩ | ⟨r, hr, hcache, _⟩
    · obtain rfl : .inl s' = out := Option.some.inj (hstep.symm.trans hout)
      exact hm.serving h (min_le_left _ _) hno fun hyes => hno hyes
    · obtain rfl : .inr r = out := Option.some.inj (hr.symm.trans hout)
      show ∃ order, ListInvariant r.cache order
      rw [hcache]
      exact hlist

/-- The step lemma of a request: it keeps what holds, or reads page 0 twice. -/
theorem Serving.step (h : Serving rq s) (hn : 0 < n) (hout : accessLoop rq s = some out) :
    (¬ Doubles rq s → (Point.after rq out).Ok) ∧
      (Doubles rq s → ¬ ListKept (Point.after rq out).cache) := by
  by_cases hpos : 0 < s.numSectors
  · cases hcached : rq.isCached with
    | false =>
        have hno : ¬ Doubles rq s := fun hdoubles =>
          Bool.false_ne_true (hcached.symm.trans hdoubles.cached)
        exact ⟨fun _ => h.straight_step hcached hpos hout, fun hdoubles => absurd hdoubles hno⟩
    | true =>
        rcases h.search hcached hpos with hsearch | ⟨hmoved, hwraps⟩
        · have hno : ¬ Doubles rq s := hsearch.not_doubles (h.searched hcached)
          exact ⟨fun _ => h.searchOk_step hn hcached hpos hsearch hout,
            fun hdoubles => absurd hdoubles hno⟩
        · exact h.wraps_step hn hcached hpos hmoved hwraps hout
  · rw [accessLoop_end hpos] at hout
    obtain rfl := Option.some.inj hout
    exact ⟨fun _ => h.list, fun hdoubles => absurd hdoubles.more hpos⟩

end Iterations

section Steps

variable {x y : Point n} {c : DvmCache n}

theorem Point.Ok.kept (h : x.Ok) : ListKept x.cache := by
  cases x with
  | idle c =>
      obtain ⟨order, hlist⟩ := h
      exact hlist.kept
  | inside rq s =>
      obtain ⟨order, hlist⟩ := h.list
      exact hlist.kept

/-- A request starts on a list in order. -/
theorem Serving.begin {order : List (Fin n)} {rq : AccessRequest}
    (hlist : ListInvariant c order) (hfirst : rq.origFirst < lbaRange)
    (st : Storage) (buffer : Nat → SectorData) :
    Serving rq (accessStart rq (dvmCacheClaim c rq.pdrv) st buffer) where
  list := by
    show ∃ order, ListInvariant (dvmCacheClaim c rq.pdrv) order
    rcases dvmCacheClaim_cases c rq.pdrv with ⟨_, hreset⟩ | ⟨hsame, _⟩
    · exact hreset
    · rw [hsame]
      exact ⟨order, hlist⟩
  start := hfirst
  count := Nat.zero_add _
  place := (Nat.mod_eq_of_lt hfirst).symm
  searched := fun _ hmoved => absurd hmoved (Nat.lt_irrefl 0)
  search := fun _ _ => Or.inl fun hlt => absurd hlt (Nat.not_lt_zero _)

/-- A fill of a page that is in no entry. -/
theorem fill_keeps_list
    {rq : AccessRequest} {s : AccessState n} {out : AccessState n ⊕ AccessResult n}
    {order : List (Fin n)} (hlist : ListInvariant s.cache order) (hn : 0 < n)
    (hfirst : s.firstSector < lbaRange)
    (hmiss : ∀ p, s.cache.Used p → s.cache.baseSector p ≠ s.curPageSector)
    (hfill : accessFill rq s = some out) :
    ∃ order, ListInvariant (Point.after rq out).cache order := by
  obtain ⟨_, _, _, _, _, _, _, _, _, _, _, _, hcase⟩ := accessFill_taken rq hlist hn hfirst
  rcases hcase with ⟨_, hlist', _, hstep⟩ | ⟨_, hclear, _, hstep⟩
  · obtain rfl := Option.some.inj (hstep.symm.trans hfill)
    exact ⟨_, hlist'⟩
  · obtain rfl := Option.some.inj (hstep.symm.trans hfill)
    exact ⟨_, hclear fun p hused _ => hmiss p hused⟩

/-- Every step keeps what holds, as long as page 0 is not read twice. -/
theorem ListStep.ok (hn : 0 < n) (h : x.Ok)
    (hs : ListStep (fun rq s => ¬ Doubles rq s) x y) : y.Ok := by
  cases hs with
  | reset => exact ⟨_, dvmCacheReset_spec _⟩
  | disable =>
      obtain ⟨order, hlist⟩ := h
      exact ⟨order, hlist.withFlags _ false true⟩
  | enable =>
      obtain ⟨order, hlist⟩ := h
      exact ⟨order, hlist.withFlags _ false false⟩
  | overwrite pages magic =>
      obtain ⟨order, hlist⟩ := h
      exact ⟨order, hlist.withPages pages magic⟩
  | promote hused hpromote =>
      obtain ⟨order, hlist⟩ := h
      obtain ⟨c', order', hpromote', hlist', _⟩ := hlist.promote hused
      obtain rfl := Option.some.inj (hpromote'.symm.trans hpromote)
      exact ⟨order', hlist'⟩
  | fill hfirst hmiss hfill =>
      obtain ⟨order, hlist⟩ := h
      exact fill_keeps_list hlist hn hfirst hmiss hfill
  | request henabled hfirst st buffer =>
      obtain ⟨order, hlist⟩ := h
      exact .begin hlist hfirst st buffer
  | iteration hmeets hout => exact (h.step hn hout).1 hmeets

theorem Comes.ok (hn : 0 < n) (h : Comes (fun rq s => ¬ Doubles rq s) x) : x.Ok := by
  refine h.invariant ?_ fun x y hx hs => hs.ok hn hx
  rintro _ ⟨c, rfl⟩
  exact ⟨_, dvmCacheReset_spec c⟩

/-- A request that reads page 0 twice goes past the last sector. -/
theorem Serving.doubles_past_end {rq : AccessRequest} {s : AccessState n}
    (h : Serving rq s) (hdoubles : Doubles rq s) :
    rq.isCached = true ∧ lbaRange < rq.origFirst + rq.origCount := by
  have hstart := h.start
  have hplace := h.place
  have hcount := h.count
  have hmore := hdoubles.more
  have hmoved := hdoubles.moved
  rw [hdoubles.first] at hplace
  refine ⟨hdoubles.cached, ?_⟩
  simp only [lbaRange] at *
  omega

/-- A request that returns is a run of its iterations. -/
theorem Comes.request {Meets : AccessRequest → AccessState n → Prop} {st : Storage}
    {pdrv fuel : Nat} {rq : DriveRequest} {r : AccessResult n}
    (h : Comes Meets (.idle c)) (hfirst : rq.sector < lbaRange)
    (hmeets : ∀ s, Comes Meets (.inside (rq.access pdrv) s) → Meets (rq.access pdrv) s)
    (hr : rq.run fuel pdrv ⟨c, st⟩ = some r) :
    Comes Meets (.idle r.cache) := by
  by_cases hcount : rq.count = 0
  · obtain ⟨r', hr', hcache⟩ := rq.run_empty hcount fuel pdrv ⟨c, st⟩
    obtain rfl := Option.some.inj (hr'.symm.trans hr)
    rw [hcache]
    exact h
  · cases hdisabled : c.dvmDisabled with
    | true =>
        rw [rq.run_disabled hdisabled hr]
        exact h
    | false =>
        rw [DriveRequest.run_enabled hdisabled hcount] at hr
        refine run_sound (fun s => Comes Meets (.inside (rq.access pdrv) s))
          (fun r => Comes Meets (.idle r.cache)) ?_ ?_
          (h.step (.request hdisabled hfirst st rq.buff.data)) hr
        · intro s s' hs hstep
          exact hs.step (.iteration (hmeets s hs) hstep)
        · intro s r hs hstep
          exact hs.step (.iteration (hmeets s hs) hstep)

/-- Requests that go straight to the device, or do not go past the last sector, meet the
condition. -/
theorem Comes.request_inside {st : Storage} {pdrv fuel : Nat} {rq : DriveRequest}
    {r : AccessResult n} (hn : 0 < n) (h : Comes (fun rq s => ¬ Doubles rq s) (.idle c))
    (hfirst : rq.sector < lbaRange)
    (hinside : (rq.access pdrv).isCached = false ∨ rq.sector + rq.count ≤ lbaRange)
    (hr : rq.run fuel pdrv ⟨c, st⟩ = some r) :
    Comes (fun rq s => ¬ Doubles rq s) (.idle r.cache) := by
  refine h.request hfirst (fun s hs hdoubles => ?_) hr
  have hserving : Serving (rq.access pdrv) s := hs.ok hn
  obtain ⟨hcached, hpast⟩ := hserving.doubles_past_end hdoubles
  rcases hinside with hstraight | hrange
  · exact Bool.false_ne_true (hstraight.symm.trans hcached)
  · exact absurd hrange (Nat.not_le.2 hpast)

end Steps

/--
After resets, promotions, page fills and requests of any kind, in the middle of a request
too, the cache has its list, as long as no iteration reads page 0 into a second entry.  An
iteration that does so breaks it; it is one of a read through the cache that goes past the
last sector.
-/
theorem cache_list_kept (hn : 0 < n) :
    (∀ x : Point n, Comes (fun rq s => ¬ Doubles rq s) x → ListKept x.cache) ∧
      ∀ (rq : AccessRequest) (s : AccessState n) (out : AccessState n ⊕ AccessResult n),
        Comes (fun rq s => ¬ Doubles rq s) (.inside rq s) → accessLoop rq s = some out →
          (ListKept (Point.after rq out).cache ↔ ¬ Doubles rq s) ∧
            (Doubles rq s → rq.isCached = true ∧ lbaRange < rq.origFirst + rq.origCount) := by
  refine ⟨fun x h => (h.ok hn).kept, fun rq s out h hout => ?_⟩
  have hserving : Serving rq s := h.ok hn
  obtain ⟨hkeeps, hbreaks⟩ := hserving.step hn hout
  exact ⟨⟨fun hkept hdoubles => hbreaks hdoubles hkept, fun hno => (hkeeps hno).kept⟩,
    hserving.doubles_past_end⟩

/-- A read of one sector, from a cache that has been reset. -/
def shortRead : AccessRequest :=
  ⟨0, 5, 1, true, false⟩

def shortReadStart : AccessState 32 :=
  accessStart shortRead (dvmCacheClaim (dvmCacheReset (DvmCache.atBoot 32)) 0) (.blank true)
    fun _ _ => 0

/-- The read fills a page, and the list is there before its next iteration. -/
theorem cache_list_kept_in_read :
    ∃ s, accessLoop shortRead shortReadStart = some (.inl s) ∧ ListKept s.cache := by
  obtain ⟨s, hs⟩ : ∃ s, accessLoop shortRead shortReadStart = some (.inl s) := ⟨_, rfl⟩
  have hstart : Comes (fun rq s => ¬ Doubles rq s) (.inside shortRead shortReadStart) :=
    .step (.start ⟨DvmCache.atBoot 32, rfl⟩)
      (.request rfl (show 5 < lbaRange by decide) (.blank true) fun _ _ => 0)
  have hstep : Comes (fun rq s => ¬ Doubles rq s) (Point.after shortRead (.inl s)) :=
    hstart.step (.iteration (fun hdoubles => absurd hdoubles.moved (Nat.lt_irrefl 0)) hs)
  exact ⟨s, hs, (cache_list_kept (by decide)).1 _ hstep⟩

/-- Page 0 is read, and then two sectors from the last one on: two entries hold page 0. -/
theorem read_past_end_doubles :
    ∃ c : DvmCache 32, Comes (fun _ _ => True) (.idle c) ∧ ¬ ListKept c := by
  obtain ⟨r₁, r₂, hr₁, hr₂, hzero, htwo⟩ :
      ∃ r₁ r₂ : AccessResult 32,
        (⟨false, .filled 0, 0, 1⟩ : DriveRequest).run 4 0
          ⟨dvmCacheReset (DvmCache.atBoot 32), .blank true⟩ = some r₁ ∧
        (⟨false, .filled 0, lbaRange - 1, 2⟩ : DriveRequest).run 6 0 ⟨r₁.cache, r₁.storage⟩ =
          some r₂ ∧
        r₂.cache.baseSector 0 = 0 ∧ r₂.cache.baseSector 2 = 0 :=
    ⟨_, _, rfl, rfl, rfl, rfl⟩
  have hstart : Comes (fun _ _ => True) (.idle (dvmCacheReset (DvmCache.atBoot 32))) :=
    .start ⟨_, rfl⟩
  have hfirst : Comes (fun _ _ => True) (.idle r₁.cache) :=
    hstart.request (by decide) (fun _ _ => trivial) hr₁
  refine ⟨r₂.cache, hfirst.request (by decide) (fun _ _ => trivial) hr₂, fun hkept => ?_⟩
  have hused : r₂.cache.Used 0 := by
    rw [DvmCache.Used, hzero]
    decide
  exact absurd (hkept.distinct 0 2 hused (hzero.trans htwo.symm)) (by decide)

end Dvm
end Cubiboot
