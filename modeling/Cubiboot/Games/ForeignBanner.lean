import Cubiboot.Games.Ownership
import Mathlib.Data.Set.Function

/-!
# Whose banner is cached

`gm_load_banner` and `gm_warm_files` read banners through one static buffer and
do not look at the result of the read.  When every read that is issued is
complete, and no banner is sent to auxiliary RAM over a valid slot of the cache,
every banner that is stored or posted is the one of its own file.

`card` is the set of paths on the card, whose keys are assumed distinct, and
`bnrOffset` is where `get_game_info` finds the banner of a file.

Results: `SlotsOwn.put` and `SlotsOwn.get`, the cache and its own files;
`BannerStep.own`, what one step stores and posts; and `no_foreign_banner`, the same of
every step of every run whose steps meet `BannerGuard`.
-/

namespace Cubiboot
namespace Games

open CopyRange Runs

/-- The calls that move banners, each being one step. -/
inductive BannerEvent where
  /--
  `gm_load_banner` for a new entry, with the descriptor of `get_game_info` or
  without one.
  -/
  | load (path : Path) (aramOffset : Nat) (unload handed : Bool) (o : FileOutcome)
  /-- One file of `gm_warm_files`. -/
  | warm (path : Path) (o : FileOutcome)
  | lineLoad (lineNum : Nat)
  | lineFree (lineNum : Nat)
  | complete (i : Nat)

/-- The state in which `gm_load_banner` is called for a new entry. -/
def beforeLoad
    (s : GmState) (path : Path) (handed : Bool) (o : FileOutcome) : GmState :=
  gmNewGame (if handed then getGameInfo s path o else s) path o.info

/-- The descriptor handed to `gm_load_banner`. -/
def handedFd (handed : Bool) (o : FileOutcome) : Option Nat :=
  if handed then some o.gameFd else none

/-- The state after an event. -/
def BannerEvent.apply (s : GmState) : BannerEvent → GmState
  | .load path aramOffset unload handed o =>
      gmPublish
        (gmLoadBanner (beforeLoad s path handed o) s.nextEntry aramOffset unload
          (handedFd handed o) o).2 true
  | .warm path o => gmWarmFile s path o
  | .lineLoad lineNum => gmLineLoad s lineNum
  | .lineFree lineNum => gmLineFree s lineNum
  | .complete i => arqComplete s i

section Card

variable (card : Set Path) (bnrOffset : Path → Nat)

/-- Files are files of the card, and are found to be what they are. -/
def BannerEvent.OnCard : BannerEvent → Prop
  | .load path _ _ _ o | .warm path o =>
      path ∈ card ∧ o.info.valid = true ∧ o.info.bnrOffset = bnrOffset path
  | _ => True

/-- The step relation of the calls that move banners. -/
def BannerStep (s : GmState) (a : BannerEvent) (s' : GmState) : Prop :=
  a.OnCard card bnrOffset ∧ s' = a.apply s

/-- Every byte was read from the file, at its banner, by a complete read. -/
def FromFile (path : Path) (offset count : Nat) (data : Nat → BnrByte) : Prop :=
  ∀ k < count,
    (data k).origin = some ⟨path, bnrOffset path + offset + k, true⟩

/-- The banner that a step has stored in the cache, with its key. -/
def storedBy (s s' : GmState) : List (UInt32 × (Nat → BnrByte)) :=
  if s'.bnrCache.nextIndex = s.bnrCache.nextIndex then
    []
  else
    [((s'.bnrCache.entry s.bnrCache.nextIndex).key,
      s'.bnrCache.slotData s.bnrCache.nextIndex)]

/-- The buffers that a step has posted for setup, with the paths of their entries. -/
def postedBy (s s' : GmState) : List (Path × (Nat → BnrByte)) :=
  (s'.arq.drop s.arq.length).filterMap fun p =>
    match p.callback, p.buf with
    | .load, _ => none
    | _, none => none
    | _, some k => some ((s'.entry p.entry).path, (s'.gmBannerPool k).data)

/-- What a step stores and posts belongs to the files it is stored and posted for. -/
structure OwnBanners (s s' : GmState) : Prop where
  stored : ∀ x ∈ storedBy s s', ∀ path ∈ card, gmBnrCacheKey path = x.1 →
    FromFile bnrOffset path 0 sizeofBnr x.2
  posted : ∀ x ∈ postedBy s s',
    FromFile bnrOffset x.1 bnrPixelOffset bnrPixeldataLen x.2

/-- No slot of the cache is valid yet. -/
structure NothingCached (s : GmState) : Prop where
  slots : ∀ i, (s.bnrCache.entry i).valid = false

/-- The banner of a file is read when it is not cached and the file is open. -/
def ReadIssued
    (s : GmState) (path : Path) (openFd : Option Nat) (o : FileOutcome) : Prop :=
  o.info.bnrOffset ≠ 0 ∧ s.bnrCache.lookup (gmBnrCacheKey path) = none ∧
    (openFd.or o.opened).isSome = true

/-- A transfer to auxiliary RAM that meets no valid slot of the cache. -/
def ClearOfCache (c : BnrCache) (p : ArqPost) : Prop :=
  p.callback = .load ∨
    ∀ i, (c.entry i).valid = true →
      p.aramOffset + bnrPixeldataLen ≤ (c.entry i).aramOffset ∨
        (c.entry i).aramOffset + sizeofBnr ≤ p.aramOffset

/--
The condition on a step: a read that is issued is complete, and a banner that
is sent to auxiliary RAM meets no valid slot.
-/
def BannerGuard (s : GmState) : BannerEvent → Prop
  | .load path _ _ handed o =>
      ReadIssued s path (handedFd handed o) o → o.read.Complete
  | .warm path o => ReadIssued s path (some o.gameFd) o → o.read.Complete
  | .lineLoad _ => True
  | .lineFree _ => True
  | .complete i => ∀ p, s.arq[i]? = some p → ClearOfCache s.bnrCache p

/-- What is kept: every valid slot holds the banner of the file of its key. -/
structure SlotsOwn (s : GmState) : Prop where
  placed : s.bnrCache.Placed
  own : ∀ i, (s.bnrCache.entry i).valid = true →
    ∀ path ∈ card, gmBnrCacheKey path = (s.bnrCache.entry i).key →
      FromFile bnrOffset path 0 sizeofBnr (s.bnrCache.slotData i)

end Card

section Proofs

variable {card : Set Path} {bnrOffset : Path → Nat} {s s' : GmState}

theorem FromFile.congr
    {path : Path} {offset count : Nat} {data data' : Nat → BnrByte}
    (h : FromFile bnrOffset path offset count data)
    (heq : ∀ k < count, data' k = data k) :
    FromFile bnrOffset path offset count data' := by
  intro k hk
  rw [heq k hk]
  exact h k hk

/-- A put of the banner of its own file. -/
theorem SlotsOwn.put
    {path : Path} {bnr : Nat → BnrByte}
    (hkeys : Set.InjOn gmBnrCacheKey card)
    (h : SlotsOwn card bnrOffset s) (hpath : path ∈ card)
    (hbnr : FromFile bnrOffset path 0 sizeofBnr bnr)
    (hcache : s'.bnrCache = bnrCachePut s.bnrCache (gmBnrCacheKey path) bnr)
    (hnone : s.bnrCache.lookup (gmBnrCacheKey path) = none) :
    SlotsOwn card bnrOffset s' ∧
      ∀ x ∈ storedBy s s', ∀ q ∈ card, gmBnrCacheKey q = x.1 →
        FromFile bnrOffset q 0 sizeofBnr x.2 := by
  have hown : SlotsOwn card bnrOffset s' := by
    refine ⟨by rw [hcache]; exact h.placed.put _ _, fun i hi q hq hkey => ?_⟩
    rw [hcache] at hi hkey ⊢
    intro k hk
    rcases slotData_put h.placed hnone hi hk with
      ⟨hnew, hdata⟩ | ⟨hvalid, hold, hdata⟩
    · rw [hdata]
      rw [hkeys hq hpath (hkey.trans hnew)]
      exact hbnr k hk
    · rw [hdata]
      exact h.own i hvalid q hq (hkey.trans hold) k hk
  refine ⟨hown, fun x hx q hq hkey => ?_⟩
  unfold storedBy at hx
  split at hx
  · cases hx
  · rw [List.mem_singleton] at hx
    rw [hx] at hkey ⊢
    refine hown.own _ ?_ q hq hkey
    rw [hcache, bnrCachePut_fresh hnone]
    simp

/-- The cache is left alone. -/
theorem SlotsOwn.same
    (h : SlotsOwn card bnrOffset s) (hcache : s'.bnrCache = s.bnrCache) :
    SlotsOwn card bnrOffset s' ∧ storedBy s s' = [] := by
  refine ⟨⟨by rw [hcache]; exact h.placed, by rw [hcache]; exact h.own⟩, ?_⟩
  unfold storedBy
  rw [if_pos (by rw [hcache])]

/-- A banner found in the cache. -/
theorem SlotsOwn.get
    {path : Path} {bnr bnr' : Nat → BnrByte}
    (h : SlotsOwn card bnrOffset s) (hpath : path ∈ card)
    (hget : bnrCacheGet s.bnrCache (gmBnrCacheKey path) bnr = some bnr') :
    FromFile bnrOffset path 0 sizeofBnr bnr' := by
  unfold bnrCacheGet at hget
  cases hlook : s.bnrCache.lookup (gmBnrCacheKey path) with
  | none =>
      rw [hlook] at hget
      cases hget
  | some i =>
      rw [hlook, Option.map_some, Option.some.injEq] at hget
      obtain ⟨hvalid, hkey⟩ := lookup_some hlook
      refine (h.own i hvalid path hpath hkey.symm).congr fun k hk => ?_
      rw [← hget]
      unfold bnrCacheLoad
      rw [copyRange_inside (by omega) (by omega)]
      rfl

/-- A complete read from an open file. -/
theorem dvdThreadedRead_own
    {path : Path} {fd : Nat} {r : ThreadedRead}
    (hfd : s.descriptor fd = some path) (hr : r.Complete) :
    FromFile bnrOffset path 0 sizeofBnr
      (dvdThreadedRead s (bnrOffset path) fd r).bannerBuffer := by
  intro k hk
  have hmin : min r.got sizeofBnr = sizeofBnr := min_eq_right hr.2
  show (copyRange s.bannerBuffer 0 (min r.got sizeofBnr)
    (readBytes (s.descriptor fd) (bnrOffset path) r) k).origin = _
  rw [hmin, hfd, copyRange_inside (by omega) (by omega)]
  simp [readBytes, hr]

/-- Whatever a step does to the cache, what it stores is its own. -/
structure KeepsCache
    (card : Set Path) (bnrOffset : Path → Nat) (s s' : GmState) : Prop where
  own : SlotsOwn card bnrOffset s'
  stored : ∀ x ∈ storedBy s s', ∀ q ∈ card, gmBnrCacheKey q = x.1 →
    FromFile bnrOffset q 0 sizeofBnr x.2

theorem KeepsCache.of_same
    (h : SlotsOwn card bnrOffset s) (hcache : s'.bnrCache = s.bnrCache) :
    KeepsCache card bnrOffset s s' := by
  obtain ⟨hown, hnil⟩ := h.same hcache
  exact ⟨hown, fun x hx => by rw [hnil] at hx; cases hx⟩

/-- `KeepsCache` looks at the cache only. -/
theorem KeepsCache.congr
    {t t' : GmState} (h : KeepsCache card bnrOffset s s')
    (hcache : t.bnrCache = s.bnrCache) (hcache' : t'.bnrCache = s'.bnrCache) :
    KeepsCache card bnrOffset t t' := by
  refine ⟨(h.own.same hcache').1, ?_⟩
  have hstored : storedBy t t' = storedBy s s' := by
    unfold storedBy
    rw [hcache, hcache']
  rw [hstored]
  exact h.stored

/-- What `gm_load_banner` has done before the label `cached`. -/
theorem gmFetchBanner_own
    {path : Path} {openFd : Option Nat} {o : FileOutcome}
    (hkeys : Set.InjOn gmBnrCacheKey card)
    (h : SlotsOwn card bnrOffset s) (hpath : path ∈ card)
    (hopen : ∀ fd, openFd = some fd → s.descriptor fd = some path)
    (hread : s.bnrCache.lookup (gmBnrCacheKey path) = none →
      (openFd.or o.opened).isSome = true → o.read.Complete) :
    KeepsCache card bnrOffset s
        (gmFetchBanner s path (bnrOffset path) openFd o).2 ∧
      ((gmFetchBanner s path (bnrOffset path) openFd o).1 = true →
        FromFile bnrOffset path 0 sizeofBnr
          (gmFetchBanner s path (bnrOffset path) openFd o).2.bannerBuffer) := by
  unfold gmFetchBanner
  cases hget : bnrCacheGet s.bnrCache (gmBnrCacheKey path) s.bannerBuffer with
  | some bnr =>
      obtain ⟨hcache, hbuffer⟩ :=
        dvdCloseIfOpen_cache { s with bannerBuffer := bnr } openFd
      refine ⟨.of_same h hcache, fun _ => ?_⟩
      show FromFile bnrOffset path 0 sizeofBnr
        (dvdCloseIfOpen { s with bannerBuffer := bnr } openFd).bannerBuffer
      rw [hbuffer]
      exact h.get hpath hget
  | none =>
      have hnone : s.bnrCache.lookup (gmBnrCacheKey path) = none := by
        unfold bnrCacheGet at hget
        exact Option.map_eq_none_iff.1 hget
      cases hfd : openFd.or o.opened with
      | none => exact ⟨.of_same h rfl, fun hno => by cases hno⟩
      | some fd =>
          have hr := hread hnone (by rw [hfd]; rfl)
          obtain ⟨s₁, hs₁⟩ : ∃ s₁, s₁ =
              if openFd.isSome = true then s else dvdCustomOpen s path fd :=
            ⟨_, rfl⟩
          have hfd₁ : s₁.descriptor fd = some path := by
            rw [hs₁]
            cases openFd with
            | some fd' =>
                have : fd' = fd := by simpa using hfd
                exact hopen fd (by rw [this])
            | none => exact Function.update_self ..
          have hcache₁ : s₁.bnrCache = s.bnrCache := by
            rw [hs₁]
            split <;> rfl
          have hown₁ := (h.same hcache₁).1
          obtain ⟨s₂, hs₂⟩ : ∃ s₂, s₂ =
              dvdCustomClose (dvdThreadedRead s₁ (bnrOffset path) fd o.read) fd :=
            ⟨_, rfl⟩
          have hbuffer : s₂.bannerBuffer =
              (dvdThreadedRead s₁ (bnrOffset path) fd o.read).bannerBuffer := by
            rw [hs₂]
            rfl
          have hcache₂ : s₂.bnrCache = s₁.bnrCache := by
            rw [hs₂]
            rfl
          simp only [← hs₁, ← hs₂]
          have hread : FromFile bnrOffset path 0 sizeofBnr s₂.bannerBuffer := by
            rw [hbuffer]
            exact dvdThreadedRead_own hfd₁ hr
          refine ⟨?_, fun _ => hread⟩
          obtain ⟨s₃, hs₃⟩ : ∃ s₃, s₃ =
              { s₂ with
                bnrCache := bnrCachePut s₂.bnrCache (gmBnrCacheKey path)
                  s₂.bannerBuffer } := ⟨_, rfl⟩
          have hcache₃ : s₃.bnrCache = bnrCachePut s₁.bnrCache
              (gmBnrCacheKey path) s₂.bannerBuffer := by
            rw [hs₃, ← hcache₂]
          obtain ⟨hown, hstored⟩ := hown₁.put hkeys hpath hread hcache₃
            (by rw [hcache₁]; exact hnone)
          rw [← hs₃]
          exact (KeepsCache.mk hown hstored).congr hcache₁.symm rfl

/-- What `gm_load_banner` posts from the label `cached` on. -/
theorem gmPlaceBanner_own
    {path : Path} {e : Nat} (aramOffset : Nat) (unload : Bool)
    (hpath : (s.entry e).path = path)
    (hbuffer : FromFile bnrOffset path 0 sizeofBnr s.bannerBuffer) :
    (gmPlaceBanner s e aramOffset unload).2.bnrCache = s.bnrCache ∧
      ∀ x ∈ postedBy s (gmPlaceBanner s e aramOffset unload).2,
        FromFile bnrOffset x.1 bnrPixelOffset bnrPixeldataLen x.2 := by
  cases hslot : s.freeSlot with
  | none =>
      have harq := (gmPlaceBanner_exhausted (e := e) aramOffset unload
        hslot).arq
      refine ⟨?_, fun x hx => ?_⟩
      · unfold gmPlaceBanner
        simp only [gmGetBannerBuf, freeSlot_setBanner, hslot, Option.map_none]
        rfl
      · unfold postedBy at hx
        rw [harq, List.drop_length] at hx
        cases hx
  | some k =>
      have harq := (gmPlaceBanner_effect (e := e) aramOffset unload hslot).arq
      obtain ⟨s', hs'⟩ : ∃ s', s' = (gmPlaceBanner s e aramOffset unload).2 :=
        ⟨_, rfl⟩
      rw [← hs'] at harq ⊢
      have hplaced : s'.bnrCache = s.bnrCache ∧
          (s'.entry e).path = path ∧
          (s'.gmBannerPool k).data =
            copyRange (s.gmBannerPool k).data 0 bnrPixeldataLen
              (fun i => s.bannerBuffer (bnrPixelOffset + i)) := by
        rw [hs']
        unfold gmPlaceBanner
        simp only [gmGetBannerBuf, freeSlot_setBanner, hslot, Option.map_some]
        cases unload with
        | false =>
            refine ⟨rfl, by simp [gmBannerSetup, hpath], ?_⟩
            simp only [gmBannerSetup, pool_setDesc, pool_post, pool_setBanner,
              Bool.false_eq_true, if_false, data_setData, data_setUsed]
            rfl
        | true =>
            refine ⟨rfl, by simp [gmBannerSetupUnload, hpath], ?_⟩
            simp only [gmBannerSetupUnload, pool_setDesc, pool_post,
              pool_setBanner, if_true, data_setData, data_setUsed]
            rfl
      obtain ⟨hcache, hentry, hdata⟩ := hplaced
      refine ⟨hcache, fun x hx => ?_⟩
      unfold postedBy at hx
      rw [harq, List.drop_left] at hx
      have hx' : x = ((s'.entry e).path, (s'.gmBannerPool k).data) := by
        cases unload <;> simpa [placedCallback] using hx
      rw [hx', hentry]
      intro j hj
      show ((s'.gmBannerPool k).data j).origin =
        some ⟨path, bnrOffset path + bnrPixelOffset + j, true⟩
      have hinside : bnrPixelOffset + j < sizeofBnr := by
        rw [sizeofBnr_eq]
        simp only [bnrPixeldataLen, bnrPixelOffset] at hj ⊢
        omega
      rw [hdata, copyRange_inside (by omega) (by omega), Nat.sub_zero,
        hbuffer _ hinside, Nat.add_zero, Nat.add_assoc]

/-- A step that posts no request for setup. -/
theorem postedBy_of_loads
    {posts : List ArqPost} (harq : s'.arq = s.arq ++ posts)
    (hloads : ∀ p ∈ posts, p.callback = .load) :
    postedBy s s' = [] := by
  unfold postedBy
  rw [harq, List.drop_left, List.filterMap_eq_nil_iff]
  intro p hp
  rw [hloads p hp]

/-- A step that posts nothing. -/
theorem postedBy_of_le
    (harq : s'.arq.length ≤ s.arq.length) :
    postedBy s s' = [] := by
  unfold postedBy
  rw [List.drop_eq_nil_of_le harq]
  rfl

/-- What is posted depends on the requests, the paths and the pool. -/
theorem postedBy_congr
    {t t' : GmState} (harq : t.arq = s.arq) (harq' : t'.arq = s'.arq)
    (hpath : ∀ e, (t'.entry e).path = (s'.entry e).path)
    (hpool : t'.gmBannerPool = s'.gmBannerPool) :
    postedBy t t' = postedBy s s' := by
  simp only [postedBy, harq, harq', hpath, hpool]

theorem beforeLoad_facts
    (s : GmState) (path : Path) (handed : Bool) (o : FileOutcome)
    (hvalid : o.info.valid = true) :
    (beforeLoad s path handed o).bnrCache = s.bnrCache ∧
      (beforeLoad s path handed o).arq = s.arq ∧
      ((beforeLoad s path handed o).entry s.nextEntry).path = path ∧
      ((beforeLoad s path handed o).entry s.nextEntry).extra = o.info.extra ∧
      ∀ fd, handedFd handed o = some fd →
        (beforeLoad s path handed o).descriptor fd = some path := by
  unfold beforeLoad handedFd
  cases handed with
  | false =>
      refine ⟨rfl, rfl, ?_, ?_, fun fd hno => by cases hno⟩
      · exact congrArg GmFileEntry.path (gmNewGame_entry s path o.info)
      · exact congrArg GmFileEntry.extra (gmNewGame_entry s path o.info)
  | true =>
      have hnext := (getGameInfo_same s path o).2
      have hentry := gmNewGame_entry (getGameInfo s path o) path o.info
      rw [hnext] at hentry
      rw [if_pos rfl, if_pos rfl]
      refine ⟨?_, ?_, congrArg GmFileEntry.path hentry,
        congrArg GmFileEntry.extra hentry, ?_⟩
      · unfold getGameInfo
        split <;> rfl
      · exact (getGameInfo_same s path o).1.arq
      · rintro fd hfd
        rw [← Option.some.inj hfd]
        show (getGameInfo s path o).descriptor o.gameFd = some path
        unfold getGameInfo
        rw [if_pos hvalid]
        exact Function.update_self ..

/-- A step that keeps the cache and posts what is its own. -/
def StepOwn
    (card : Set Path) (bnrOffset : Path → Nat) (s s' : GmState) : Prop :=
  KeepsCache card bnrOffset s s' ∧
    ∀ x ∈ postedBy s s', FromFile bnrOffset x.1 bnrPixelOffset bnrPixeldataLen x.2

/-- `gm_load_banner` for an entry of the file at `path`. -/
theorem gmLoadBanner_own
    {path : Path} {e aramOffset : Nat} {unload : Bool}
    {openFd : Option Nat} {o : FileOutcome}
    (hkeys : Set.InjOn gmBnrCacheKey card)
    (h : SlotsOwn card bnrOffset s) (hpath : path ∈ card)
    (hentry : (s.entry e).path = path)
    (hoffset : (s.entry e).extra.dvdBnrOffset = bnrOffset path)
    (hopen : ∀ fd, openFd = some fd → s.descriptor fd = some path)
    (hread : bnrOffset path ≠ 0 →
      s.bnrCache.lookup (gmBnrCacheKey path) = none →
      (openFd.or o.opened).isSome = true → o.read.Complete) :
    StepOwn card bnrOffset s (gmLoadBanner s e aramOffset unload openFd o).2 := by
  unfold gmLoadBanner
  rw [hoffset, hentry]
  by_cases hzero : bnrOffset path = 0
  · rw [if_pos hzero]
    refine ⟨.of_same h (dvdCloseIfOpen_cache s openFd).1, fun x hx => ?_⟩
    rw [postedBy_of_le (by rw [(dvdCloseIfOpen_same openFd).arq])] at hx
    cases hx
  · rw [if_neg hzero]
    obtain ⟨hkeep, hbuffer⟩ :=
      gmFetchBanner_own hkeys h hpath hopen (hread hzero)
    have hsame := gmFetchBanner_same (s := s) path (bnrOffset path) openFd o
    generalize gmFetchBanner s path (bnrOffset path) openFd o = r at *
    obtain ⟨ok, s₁⟩ := r
    cases ok with
    | false =>
        refine ⟨hkeep, fun x hx => ?_⟩
        rw [postedBy_of_le (by rw [hsame.arq])] at hx
        cases hx
    | true =>
        obtain ⟨hcache, hposted⟩ := gmPlaceBanner_own (e := e)
          aramOffset unload (by rw [hsame.entry]; exact hentry) (hbuffer rfl)
        refine ⟨hkeep.congr rfl hcache, fun x hx => hposted x ?_⟩
        rwa [postedBy_congr hsame.arq.symm rfl (fun _ => rfl) rfl] at hx

/-- One file of `gm_warm_files`. -/
theorem gmWarmFile_own
    {path : Path} {o : FileOutcome}
    (hkeys : Set.InjOn gmBnrCacheKey card)
    (h : SlotsOwn card bnrOffset s) (hpath : path ∈ card)
    (hvalid : o.info.valid = true) (hoffset : o.info.bnrOffset = bnrOffset path)
    (hread : ReadIssued s path (some o.gameFd) o → o.read.Complete) :
    StepOwn card bnrOffset s (gmWarmFile s path o) := by
  obtain ⟨s₁, hs₁⟩ : ∃ s₁, s₁ = getGameInfo s path o := ⟨_, rfl⟩
  have hcache₁ : s₁.bnrCache = s.bnrCache := by
    rw [hs₁]
    unfold getGameInfo
    split <;> rfl
  have harq₁ : s₁.arq = s.arq := by
    rw [hs₁]
    exact (getGameInfo_same s path o).1.arq
  have hfd₁ : s₁.descriptor o.gameFd = some path := by
    rw [hs₁]
    unfold getGameInfo
    rw [if_pos hvalid]
    exact Function.update_self ..
  have hquiet : ∀ s', s'.arq = s₁.arq → ∀ x ∈ postedBy s s',
      FromFile bnrOffset x.1 bnrPixelOffset bnrPixeldataLen x.2 := by
    intro s' harq x hx
    rw [postedBy_of_le (by rw [harq, harq₁])] at hx
    cases hx
  unfold gmWarmFile
  rw [if_pos hvalid]
  simp only [← hs₁]
  by_cases hzero : o.info.bnrOffset = 0
  · rw [if_pos hzero]
    exact ⟨.of_same h hcache₁, hquiet _ rfl⟩
  · rw [if_neg hzero]
    cases hget : bnrCacheGet s₁.bnrCache (gmBnrCacheKey path) s₁.bannerBuffer with
    | some bnr => exact ⟨.of_same h hcache₁, hquiet _ rfl⟩
    | none =>
        have hnone : s.bnrCache.lookup (gmBnrCacheKey path) = none := by
          unfold bnrCacheGet at hget
          rw [hcache₁] at hget
          exact Option.map_eq_none_iff.1 hget
        have hr := hread ⟨hzero, hnone, rfl⟩
        obtain ⟨s₂, hs₂⟩ : ∃ s₂, s₂ =
            dvdCustomClose (dvdThreadedRead s₁ o.info.bnrOffset o.gameFd o.read)
              o.gameFd := ⟨_, rfl⟩
        have hfile : FromFile bnrOffset path 0 sizeofBnr s₂.bannerBuffer := by
          rw [hs₂, hoffset]
          have hbuffer : FromFile bnrOffset path 0 sizeofBnr
              (dvdThreadedRead s₁ (bnrOffset path) o.gameFd o.read).bannerBuffer :=
            dvdThreadedRead_own hfd₁ hr
          exact hbuffer
        have hcache₂ : s₂.bnrCache = s.bnrCache := by
          rw [hs₂, ← hcache₁]
          rfl
        obtain ⟨s₃, hs₃⟩ : ∃ s₃, s₃ =
            { s₂ with
              bnrCache := bnrCachePut s₂.bnrCache (gmBnrCacheKey path)
                s₂.bannerBuffer } := ⟨_, rfl⟩
        have hcache₃ : s₃.bnrCache = bnrCachePut s.bnrCache (gmBnrCacheKey path)
            s₂.bannerBuffer := by
          rw [hs₃, ← hcache₂]
        have harq₃ : s₃.arq = s₁.arq := by
          rw [hs₃, hs₂]
          rfl
        obtain ⟨hown, hstored⟩ := h.put hkeys hpath hfile hcache₃ hnone
        simp only [← hs₂, ← hs₃]
        exact ⟨⟨hown, hstored⟩, hquiet _ harq₃⟩

/-- Publishing an entry leaves its path alone. -/
theorem gmPublish_path
    (s : GmState) (useBanner : Bool) (e : Nat) :
    ((gmPublish s useBanner).entry e).path = (s.entry e).path := by
  simp only [gmPublish]
  by_cases he : e = s.nextEntry
  · rw [he, Function.update_self]
  · rw [Function.update_of_ne he]

/-- Releasing a buffer leaves the cache alone. -/
theorem gmFreeBannerBuf_cache
    (s : GmState) (buf : Option PoolSlot) :
    (gmFreeBannerBuf s buf).bnrCache = s.bnrCache := by
  cases buf <;> rfl

theorem gmBannerLoad_cache
    (s : GmState) (e : Nat) :
    (gmBannerLoad s e).bnrCache = s.bnrCache := by
  unfold gmBannerLoad
  split
  · rfl
  · simp only [gmGetBannerBuf, freeSlot_setBanner]
    cases s.freeSlot <;> rfl

/-- Loading entries posts loads only and leaves the cache alone. -/
theorem foldl_load_cache
    (l : List Nat) (s : GmState) :
    (l.foldl gmBannerLoad s).bnrCache = s.bnrCache ∧
      ∃ posts, (l.foldl gmBannerLoad s).arq = s.arq ++ posts ∧
        ∀ p ∈ posts, p.callback = .load := by
  induction l generalizing s with
  | nil => exact ⟨rfl, [], (List.append_nil _).symm, fun p hp => by cases hp⟩
  | cons e l ih =>
      obtain ⟨hcache, posts, harq, hloads⟩ := ih (gmBannerLoad s e)
      refine ⟨hcache.trans (gmBannerLoad_cache s e), ?_⟩
      by_cases hst : (s.banner e).state = .none ∨ (s.banner e).state = .loaded
      · refine ⟨posts, harq.trans ?_, hloads⟩
        rw [gmBannerLoad_idle hst]
      · cases hslot : s.freeSlot with
        | none =>
            rw [(gmBannerLoad_exhausted hslot hst).arq] at harq
            exact ⟨posts, harq, hloads⟩
        | some k =>
            rw [(gmBannerLoad_effect hslot hst).arq, List.append_assoc] at harq
            refine ⟨_, harq, fun p hp => ?_⟩
            rcases List.mem_cons.1 hp with rfl | hp
            · rfl
            · exact hloads p hp

/-- Freeing entries leaves the cache alone. -/
theorem foldl_free_cache
    (l : List Nat) (s : GmState) :
    (l.foldl gmBannerFree s).bnrCache = s.bnrCache := by
  induction l generalizing s with
  | nil => rfl
  | cons e l ih =>
      refine (ih (gmBannerFree s e)).trans ?_
      unfold gmBannerFree
      split
      · rfl
      · split
        · rfl
        · exact gmFreeBannerBuf_cache _ _

/-- A callback leaves the cache alone. -/
theorem arqCallback_cache
    (s : GmState) (p : ArqPost) :
    (arqCallback s p).bnrCache = s.bnrCache := by
  unfold arqCallback
  cases p.callback with
  | setup => rfl
  | load => rfl
  | unload => exact gmFreeBannerBuf_cache _ _

/-- A completed transfer that meets no valid slot. -/
theorem arqComplete_own
    {i : Nat} (h : SlotsOwn card bnrOffset s)
    (hclear : ∀ p, s.arq[i]? = some p → ClearOfCache s.bnrCache p) :
    StepOwn card bnrOffset s (arqComplete s i) := by
  cases hp : s.arq[i]? with
  | none =>
      rw [arqComplete_none hp]
      refine ⟨.of_same h rfl, fun x hx => ?_⟩
      rw [postedBy_of_le le_rfl] at hx
      cases hx
  | some p =>
      have hquiet : postedBy s (arqComplete s i) = [] := by
        refine postedBy_of_le ?_
        rw [(arqComplete_effect hp).arq]
        exact List.length_eraseIdx_le ..
      have hslots : (arqComplete s i).bnrCache.entry = s.bnrCache.entry ∧
          (arqComplete s i).bnrCache.nextIndex = s.bnrCache.nextIndex ∧
          ∀ j, (s.bnrCache.entry j).valid = true → ∀ k < sizeofBnr,
            (arqComplete s i).bnrCache.slotData j k = s.bnrCache.slotData j k := by
        have hcallback : (arqComplete s i).bnrCache =
            (arqTransfer { s with arq := s.arq.eraseIdx i } p).bnrCache := by
          unfold arqComplete
          rw [hp]
          exact arqCallback_cache _ p
        rw [hcallback]
        unfold arqTransfer
        cases hbuf : p.buf with
        | none => exact ⟨rfl, rfl, fun _ _ _ _ => rfl⟩
        | some slot =>
            have hwrite : p.callback ≠ .load → ∀ j,
                (s.bnrCache.entry j).valid = true → ∀ k < sizeofBnr,
                copyRange s.bnrCache.aram p.aramOffset bnrPixeldataLen
                    (s.gmBannerPool slot).data
                    ((s.bnrCache.entry j).aramOffset + k) =
                  s.bnrCache.aram ((s.bnrCache.entry j).aramOffset + k) := by
              intro hcb j hj k hk
              have hd := (hclear p hp).resolve_left hcb j hj
              exact copyRange_outside (by omega)
            cases hcb : p.callback with
            | setup => exact ⟨rfl, rfl, hwrite (by simp [hcb])⟩
            | unload => exact ⟨rfl, rfl, hwrite (by simp [hcb])⟩
            | load => exact ⟨rfl, rfl, fun _ _ _ _ => rfl⟩
      obtain ⟨hentry, hnext, hdata⟩ := hslots
      refine ⟨⟨⟨?_, ?_⟩, ?_⟩, ?_⟩
      · intro j hj
        rw [hentry] at hj ⊢
        exact h.placed j hj
      · intro j hj path hpath hkey
        rw [hentry] at hj hkey
        exact (h.own j hj path hpath hkey).congr (hdata j hj)
      · intro x hx
        unfold storedBy at hx
        rw [if_pos hnext] at hx
        cases hx
      · intro x hx
        rw [hquiet] at hx
        cases hx

/-- Every step whose guard holds keeps the slots, and stores and posts its own. -/
theorem BannerStep.own
    {a : BannerEvent} (hkeys : Set.InjOn gmBnrCacheKey card)
    (h : SlotsOwn card bnrOffset s) (hguard : BannerGuard s a)
    (hs : BannerStep card bnrOffset s a s') :
    StepOwn card bnrOffset s s' := by
  obtain ⟨hcard, rfl⟩ := hs
  have hquiet : ∀ s', s'.bnrCache = s.bnrCache → postedBy s s' = [] →
      StepOwn card bnrOffset s s' := by
    intro s' hcache hnil
    exact ⟨.of_same h hcache, fun x hx => by rw [hnil] at hx; cases hx⟩
  cases a with
  | load path aramOffset unload handed o =>
      obtain ⟨hpath, hvalid, hoffset⟩ := hcard
      obtain ⟨hcache, harq, hentry, hextra, hopen⟩ :=
        beforeLoad_facts s path handed o hvalid
      have hstep : StepOwn card bnrOffset (beforeLoad s path handed o)
          (gmLoadBanner (beforeLoad s path handed o) s.nextEntry aramOffset
            unload (handedFd handed o) o).2 :=
        gmLoadBanner_own hkeys (h.same hcache).1 hpath
        hentry (by rw [hextra]; exact hoffset) hopen
        (fun hne hnone hfd => hguard ⟨by rw [hoffset]; exact hne,
          by rw [← hcache]; exact hnone, hfd⟩)
      obtain ⟨t, ht⟩ : ∃ t, t = (gmLoadBanner (beforeLoad s path handed o)
          s.nextEntry aramOffset unload (handedFd handed o) o).2 := ⟨_, rfl⟩
      rw [← ht] at hstep
      show StepOwn card bnrOffset s (gmPublish (gmLoadBanner
        (beforeLoad s path handed o) s.nextEntry aramOffset unload
        (handedFd handed o) o).2 true)
      rw [← ht]
      refine ⟨hstep.1.congr hcache.symm rfl, fun x hx => hstep.2 x ?_⟩
      have hposted : postedBy s (gmPublish t true) =
          postedBy (beforeLoad s path handed o) t :=
        postedBy_congr harq.symm rfl (gmPublish_path t true) rfl
      rwa [hposted] at hx
  | warm path o =>
      obtain ⟨hpath, hvalid, hoffset⟩ := hcard
      show StepOwn card bnrOffset s (gmWarmFile s path o)
      have hstep := gmWarmFile_own hkeys h hpath hvalid hoffset hguard
      exact hstep
  | lineLoad lineNum =>
      show StepOwn card bnrOffset s (gmLineLoad s lineNum)
      rw [gmLineLoad_eq]
      obtain ⟨hcache, posts, harq, hloads⟩ :=
        foldl_load_cache (lineGames s lineNum) s
      exact hquiet _ hcache (postedBy_of_loads harq hloads)
  | lineFree lineNum =>
      show StepOwn card bnrOffset s (gmLineFree s lineNum)
      rw [gmLineFree_eq]
      exact hquiet _ (foldl_free_cache _ s)
        (postedBy_of_le (by rw [foldl_free_others.1]))
  | complete i => exact arqComplete_own h hguard

/-- Nothing is cached, so nothing foreign is. -/
theorem SlotsOwn.of_nothing
    (h : NothingCached s) : SlotsOwn card bnrOffset s := by
  refine ⟨fun i hi => ?_, fun i hi => ?_⟩ <;>
  · rw [h.slots i] at hi
    cases hi

/--
In a run whose reads are complete, and whose banners are sent past the valid
slots of the cache, everything that is stored or posted is the banner of the
file it is stored or posted for.
-/
theorem no_foreign_banner
    {a : BannerEvent} (hkeys : Set.InjOn gmBnrCacheKey card)
    (hreach : Reachable NothingCached
      (Guarded (BannerStep card bnrOffset) BannerGuard) s)
    (hguard : BannerGuard s a) (hs : BannerStep card bnrOffset s a s') :
    OwnBanners card bnrOffset s s' := by
  have hown : SlotsOwn card bnrOffset s := by
    refine hreach.invariant (fun _ h => .of_nothing h) fun _ _ h hstep => ?_
    obtain ⟨_, hguard, hs⟩ := hstep
    exact (BannerStep.own hkeys h hguard hs).1.own
  obtain ⟨hkeep, hposted⟩ := BannerStep.own hkeys hown hguard hs
  exact ⟨hkeep.stored, hposted⟩

end Proofs

/-- The offset of the banner of every file below. -/
def sampleOffset : Nat := 0x2440

/-- A visible load of a file, whose read transfers `got` bytes. -/
def sampleLoad (path : Path) (success : Bool) (got : Nat) : BannerEvent :=
  .load path aramStart false true
    { info := ⟨true, [], 0, 0, 0, sampleOffset, 0, 0, 0, 0⟩
      gameFd := 0
      opened := none
      read := ⟨success, got, fun _ => 0⟩ }

/-- The first file, read completely. -/
def firstLoaded : GmState :=
  (sampleLoad [0x2F, 0x61] true sizeofBnr).apply .blank

/-- The second file, whose read fails. -/
def secondFailed : GmState :=
  (sampleLoad [0x2F, 0x62] false 0).apply firstLoaded

theorem blank_nothing_cached : NothingCached .blank :=
  ⟨fun _ => rfl⟩

theorem sampleKeys_injOn :
    Set.InjOn gmBnrCacheKey {[0x2F, 0x61], [0x2F, 0x62]} := by
  have hne : gmBnrCacheKey [0x2F, 0x61] ≠ gmBnrCacheKey [0x2F, 0x62] := by
    decide +kernel
  intro p hp q hq heq
  rcases hp with rfl | rfl <;> rcases hq with rfl | rfl
  · rfl
  · exact absurd heq hne
  · exact absurd heq.symm hne
  · rfl

/--
The banner of the first file is stored under the key of the second, whose read
has failed.
-/
theorem failed_read_cached :
    Set.InjOn gmBnrCacheKey {[0x2F, 0x61], [0x2F, 0x62]} ∧
    ∃ s a, Reachable NothingCached
        (anyStep (BannerStep {[0x2F, 0x61], [0x2F, 0x62]} fun _ => sampleOffset)) s ∧
      BannerStep {[0x2F, 0x61], [0x2F, 0x62]} (fun _ => sampleOffset) s a
        (a.apply s) ∧
      ¬ OwnBanners {[0x2F, 0x61], [0x2F, 0x62]} (fun _ => sampleOffset) s
        (a.apply s) := by
  have hstart : Reachable NothingCached
      (anyStep (BannerStep {[0x2F, 0x61], [0x2F, 0x62]} fun _ => sampleOffset))
      .blank := Reachable.start blank_nothing_cached
  refine ⟨sampleKeys_injOn, firstLoaded, sampleLoad [0x2F, 0x62] false 0,
    hstart.step ⟨sampleLoad [0x2F, 0x61] true sizeofBnr, ⟨?_, rfl⟩⟩, ⟨?_, rfl⟩,
    fun h => ?_⟩
  · exact ⟨Or.inl rfl, rfl, rfl⟩
  · exact ⟨Or.inr rfl, rfl, rfl⟩
  · have hstored : storedBy firstLoaded secondFailed =
        [(gmBnrCacheKey [0x2F, 0x62], secondFailed.bnrCache.slotData 1)] := by
      have hnext : firstLoaded.bnrCache.nextIndex = 1 := by decide +kernel
      have hmoved : secondFailed.bnrCache.nextIndex ≠ 1 := by decide +kernel
      have hkey : (secondFailed.bnrCache.entry 1).key =
          gmBnrCacheKey [0x2F, 0x62] := by decide +kernel
      unfold storedBy
      rw [hnext, if_neg hmoved, hkey]
    have hforeign : (secondFailed.bnrCache.slotData 1 0).origin =
        some ⟨[0x2F, 0x61], sampleOffset, true⟩ := by decide +kernel
    have hmem : (gmBnrCacheKey [0x2F, 0x62], secondFailed.bnrCache.slotData 1) ∈
        storedBy firstLoaded secondFailed := by
      rw [hstored]
      exact List.mem_singleton.2 rfl
    have hown := h.stored _ hmem [0x2F, 0x62] (Or.inr rfl) rfl 0
      (by decide +kernel)
    rw [hforeign] at hown
    exact absurd hown (by decide)

/-- The first file is loaded again, now from the cache. -/
theorem no_foreign_banner_from_cache :
    OwnBanners {[0x2F, 0x61], [0x2F, 0x62]} (fun _ => sampleOffset) firstLoaded
      ((sampleLoad [0x2F, 0x61] false 0).apply firstLoaded) := by
  have hstart : Reachable NothingCached
      (Guarded (BannerStep {[0x2F, 0x61], [0x2F, 0x62]} fun _ => sampleOffset)
        BannerGuard) .blank := Reachable.start blank_nothing_cached
  have hread : BannerGuard .blank (sampleLoad [0x2F, 0x61] true sizeofBnr) :=
    fun _ => ⟨rfl, le_rfl⟩
  have hcached : BannerGuard firstLoaded (sampleLoad [0x2F, 0x61] false 0) := by
    intro hissued
    have hfound : firstLoaded.bnrCache.lookup (gmBnrCacheKey [0x2F, 0x61]) ≠
        none := by decide +kernel
    exact absurd hissued.2.1 hfound
  exact no_foreign_banner sampleKeys_injOn
    (hstart.step ⟨sampleLoad [0x2F, 0x61] true sizeofBnr, hread,
      ⟨Or.inl rfl, rfl, rfl⟩, rfl⟩)
    hcached ⟨⟨Or.inl rfl, rfl, rfl⟩, rfl⟩

end Games
end Cubiboot
