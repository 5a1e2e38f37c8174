import Cubiboot.Foundations.FifoRing
import Cubiboot.Games.BannerRing

/-!
# The banner cache is a FIFO map

Whatever is put into the cache and looked up in it, the last 1024 banners that have
been inserted are found, under their keys, and no others are.

`KeepsLast` relates the cache to a history of insertions. A put of a key that is found
inserts nothing; a transfer that ends below the slots does not change them, while a
longer one may, so the events of a run keep below.

Results: `BnrCache.KeepsLast.put` and `BnrCache.KeepsLast.apply`, one event;
`BnrCache.KeepsLast.after`, a run of them; `BnrCache.KeepsLast.get_eq`, what a lookup
gives; and `bnrCache_isFifo`, the keys that are found after any run, with their banners.
-/

namespace Cubiboot
namespace Games

open CopyRange FifoRing

/-- What happens to the cache and to auxiliary RAM. -/
inductive CacheEvent where
  /-- `bnr_cache_put`. -/
  | put (key : UInt32) (bnr : Nat → BnrByte)
  /-- `bnr_cache_get`. -/
  | get (key : UInt32) (bnr : Nat → BnrByte)
  /-- Another transfer to auxiliary RAM. -/
  | transfer (place count : Nat) (data : Nat → BnrByte)

/-- A lookup fills the buffer that it is given and changes nothing in the cache. -/
def CacheEvent.apply (c : BnrCache) : CacheEvent → BnrCache
  | .put key bnr => bnrCachePut c key bnr
  | .get _ _ => c
  | .transfer place count data => { c with aram := copyRange c.aram place count data }

/-- The cache after these, one after the other. -/
def BnrCache.after (c : BnrCache) (events : List CacheEvent) : BnrCache :=
  events.foldl CacheEvent.apply c

/-- A banner under its key. -/
abbrev KeyedBanner := UInt32 × (Nat → BnrByte)

/-- The insertions so far, the latest first. -/
def CacheEvent.inserts (history : List KeyedBanner) : CacheEvent → List KeyedBanner
  | .put key bnr => FifoRing.put bnrCacheSize history key bnr
  | _ => history

/-- The insertions that these make, the latest first. -/
def insertions (events : List CacheEvent) : List KeyedBanner :=
  events.foldl CacheEvent.inserts []

/-- The place of the last slot: all others are behind it. -/
def slotsStart : Nat := aramSize - sizeofBnr * bnrCacheSize

/-- A transfer that is not the cache's own stays away from the slots. -/
def CacheEvent.SparesSlots : CacheEvent → Prop
  | .transfer place count _ => place + count ≤ slotsStart
  | _ => True

/-- The slot holds the banner under its key. -/
def BnrCache.Holds (c : BnrCache) (i : Fin bnrCacheSize) : Option KeyedBanner → Prop
  | none => (c.entry i).valid = false
  | some (key, bnr) =>
      c.entry i = ⟨key, slotOffset i, true⟩ ∧
        ∀ k < sizeofBnr, c.aram (slotOffset i + k) = bnr k

/-- The cache is the ring that keeps the last insertions. -/
structure BnrCache.KeepsLast (c : BnrCache) (history : List KeyedBanner) : Prop where
  next : c.nextIndex.val = history.length % bnrCacheSize
  nodup : ((history.take bnrCacheSize).map Prod.fst).Nodup
  slots : ∃ slot : Fin bnrCacheSize → Option KeyedBanner,
    Keeps slot history ∧ ∀ i, c.Holds i (slot i)

variable {c : BnrCache} {history : List KeyedBanner} {key : UInt32}

theorem slotsStart_eq : slotsStart = 8486912 := rfl

theorem slotsStart_le (i : Fin bnrCacheSize) : slotsStart ≤ slotOffset i :=
  Nat.sub_le_sub_left (Nat.mul_le_mul_left _ (Nat.succ_le_of_lt i.isLt)) _

/-- A valid slot holds an insertion, under its own key. -/
theorem BnrCache.Holds.of_valid {i : Fin bnrCacheSize} {kept : Option KeyedBanner}
    (h : c.Holds i kept) (hvalid : (c.entry i).valid = true) :
    ∃ bnr, kept = some ((c.entry i).key, bnr) ∧ (c.entry i).aramOffset = slotOffset i ∧
      ∀ k < sizeofBnr, c.aram (slotOffset i + k) = bnr k := by
  cases kept with
  | none =>
      rw [show (c.entry i).valid = false from h] at hvalid
      cases hvalid
  | some held =>
      obtain ⟨key, bnr⟩ := held
      obtain ⟨hentry, hdata⟩ := h
      rw [hentry]
      exact ⟨bnr, rfl, rfl, hdata⟩

/-- A valid slot has an insertion among the last, which it holds. -/
theorem BnrCache.KeepsLast.of_valid (h : c.KeepsLast history) {i : Fin bnrCacheSize}
    (hvalid : (c.entry i).valid = true) :
    ∃ bnr, ((c.entry i).key, bnr) ∈ history.take bnrCacheSize ∧
      (c.entry i).aramOffset = slotOffset i ∧
      ∀ k < sizeofBnr, c.aram (slotOffset i + k) = bnr k := by
  obtain ⟨slot, hkeeps, hholds⟩ := h.slots
  obtain ⟨bnr, hslot, hoffset, hdata⟩ := (hholds i).of_valid hvalid
  exact ⟨bnr, (hkeeps.mem_take _).2 ⟨i, hslot⟩, hoffset, hdata⟩

/-- An insertion among the last has a valid slot. -/
theorem BnrCache.KeepsLast.exists_valid (h : c.KeepsLast history) {bnr : Nat → BnrByte}
    (hmem : (key, bnr) ∈ history.take bnrCacheSize) :
    ∃ i, c.entry i = ⟨key, slotOffset i, true⟩ := by
  obtain ⟨slot, hkeeps, hholds⟩ := h.slots
  obtain ⟨i, hi⟩ := (hkeeps.mem_take (key, bnr)).1 hmem
  have hslot := hholds i
  rw [hi] at hslot
  exact ⟨i, hslot.1⟩

/-- The keys that are found are those of the last insertions. -/
theorem BnrCache.KeepsLast.lookup_none_iff (h : c.KeepsLast history) :
    c.lookup key = none ↔ key ∉ (history.take bnrCacheSize).map Prod.fst := by
  rw [lookup_none]
  constructor
  · intro hnone hmem
    obtain ⟨⟨key', bnr⟩, hkept, rfl⟩ := List.mem_map.1 hmem
    obtain ⟨i, hi⟩ := h.exists_valid hkept
    have hne := hnone i (by rw [hi])
    rw [hi] at hne
    exact hne rfl
  · intro hnone i hvalid heq
    obtain ⟨bnr, hmem, _⟩ := h.of_valid hvalid
    rw [heq] at hmem
    exact hnone (List.mem_map.2 ⟨(key, bnr), hmem, rfl⟩)

/-- No key is valid in two slots. -/
theorem BnrCache.KeepsLast.unique (h : c.KeepsLast history) {i j : Fin bnrCacheSize}
    (hi : (c.entry i).valid = true) (hj : (c.entry j).valid = true)
    (hkey : (c.entry i).key = (c.entry j).key) : i = j := by
  obtain ⟨slot, hkeeps, hholds⟩ := h.slots
  obtain ⟨_, hx, _⟩ := (hholds i).of_valid hi
  obtain ⟨_, hy, _⟩ := (hholds j).of_valid hj
  exact hkeeps.unique h.nodup hx hy hkey

/-- An empty cache keeps nothing. -/
theorem EmptyCache.keepsLast (h : EmptyCache c) : c.KeepsLast [] where
  next := h.2
  nodup := List.nodup_nil
  slots := ⟨fun _ => none, Keeps.nil, fun i => by rw [BnrCache.Holds, h.1 i]⟩

theorem BnrCache.KeepsLast.put (h : c.KeepsLast history) (bnr : Nat → BnrByte) :
    (bnrCachePut c key bnr).KeepsLast (FifoRing.put bnrCacheSize history key bnr) := by
  have hnodup := put_nodup key bnr h.nodup
  cases hlook : c.lookup key with
  | some i =>
      have hpresent : key ∈ (history.take bnrCacheSize).map Prod.fst := by
        by_contra hno
        rw [h.lookup_none_iff.2 hno] at hlook
        cases hlook
      rw [bnrCachePut_present hlook, FifoRing.put, if_pos hpresent]
      exact h
  | none =>
      have hfresh := h.lookup_none_iff.1 hlook
      rw [FifoRing.put, if_neg hfresh] at hnodup ⊢
      obtain ⟨slot, hkeeps, hholds⟩ := h.slots
      rw [bnrCachePut_fresh hlook]
      refine ⟨?_, hnodup, _, hkeeps.push h.next (key, bnr), fun i => ?_⟩
      · have hadd : (c.nextIndex + 1).val = (c.nextIndex.val + 1) % bnrCacheSize :=
          Fin.val_add _ _
        rw [hadd, h.next, List.length_cons, Nat.mod_add_mod]
      · by_cases hi : i = c.nextIndex
        · subst hi
          rw [Function.update_self]
          refine ⟨Function.update_self _ _ _, fun k hk => ?_⟩
          dsimp only
          rw [copyRange_inside (by omega) (by omega), Nat.add_sub_cancel_left]
        · have hslot := hholds i
          rw [Function.update_of_ne hi]
          cases hkept : slot i with
          | none =>
              rw [hkept] at hslot
              show (Function.update c.entry c.nextIndex _ i).valid = false
              rw [Function.update_of_ne hi]
              exact hslot
          | some kept =>
              obtain ⟨key', bnr'⟩ := kept
              rw [hkept] at hslot
              refine ⟨?_, fun k hk => ?_⟩
              · show Function.update c.entry c.nextIndex _ i = _
                rw [Function.update_of_ne hi]
                exact hslot.1
              · have hapart := slotOffset_disjoint hi
                dsimp only
                rw [copyRange_outside (by omega)]
                exact hslot.2 k hk

/-- What is written in front of the slots does not change what they hold. -/
theorem BnrCache.KeepsLast.transfer (h : c.KeepsLast history) {place count : Nat}
    (hspares : place + count ≤ slotsStart) (data : Nat → BnrByte) :
    { c with aram := copyRange c.aram place count data : BnrCache }.KeepsLast history := by
  obtain ⟨slot, hkeeps, hholds⟩ := h.slots
  refine ⟨h.next, h.nodup, slot, hkeeps, fun i => ?_⟩
  have hslot := hholds i
  cases hkept : slot i with
  | none =>
      rw [hkept] at hslot
      exact hslot
  | some kept =>
      rw [hkept] at hslot
      refine ⟨hslot.1, fun k hk => ?_⟩
      have hstart := slotsStart_le i
      show copyRange c.aram place count data _ = _
      rw [copyRange_outside (by omega)]
      exact hslot.2 k hk

theorem BnrCache.KeepsLast.apply (h : c.KeepsLast history) {event : CacheEvent}
    (hspares : event.SparesSlots) :
    (event.apply c).KeepsLast (event.inserts history) := by
  cases event with
  | put key bnr =>
      rw [CacheEvent.apply, CacheEvent.inserts]
      exact h.put bnr
  | get key bnr => exact h
  | transfer place count data => exact h.transfer hspares data

theorem BnrCache.KeepsLast.after (h : c.KeepsLast history) {events : List CacheEvent}
    (hspares : ∀ event ∈ events, event.SparesSlots) :
    (c.after events).KeepsLast (events.foldl CacheEvent.inserts history) := by
  induction events generalizing c history with
  | nil =>
      exact h
  | cons event rest ih =>
      exact ih (h.apply (hspares event List.mem_cons_self))
        fun event hevent => hspares event (List.mem_cons_of_mem _ hevent)

/-- A lookup yields the banner of the insertion. -/
theorem BnrCache.KeepsLast.get_eq (h : c.KeepsLast history) {bnr bnr' banner : Nat → BnrByte}
    (hget : bnrCacheGet c key bnr = some bnr')
    (hmem : (key, banner) ∈ history.take bnrCacheSize) :
    ∀ k < sizeofBnr, bnr' k = banner k := by
  obtain ⟨i, hlook, rfl⟩ := Option.map_eq_some_iff.1 hget
  obtain ⟨hvalid, hkey⟩ := lookup_some hlook
  obtain ⟨slot, hkeeps, hholds⟩ := h.slots
  obtain ⟨j, hj⟩ := (hkeeps.mem_take (key, banner)).1 hmem
  have hslot := hholds j
  rw [hj] at hslot
  obtain ⟨hentry, hdata⟩ := hslot
  have hij : i = j := h.unique hvalid (by rw [hentry]) (by rw [hentry, hkey])
  intro k hk
  rw [bnrCacheLoad, copyRange_inside (Nat.zero_le _) (by omega), Nat.sub_zero, hij, hentry]
  exact hdata k hk

/--
After any puts and lookups the keys that are found are those of the last 1024
insertions, each with the banner that was inserted with it.  Valid slots have different
keys, and the slots do not overlap.
-/
theorem bnrCache_isFifo (hempty : EmptyCache c) (events : List CacheEvent)
    (hspares : ∀ event ∈ events, event.SparesSlots) :
    (∀ key bnr, (bnrCacheGet (c.after events) key bnr).isSome = true ↔
      key ∈ ((insertions events).take bnrCacheSize).map Prod.fst) ∧
    (∀ key bnr bnr' banner, bnrCacheGet (c.after events) key bnr = some bnr' →
      (key, banner) ∈ (insertions events).take bnrCacheSize →
      ∀ k < sizeofBnr, bnr' k = banner k) ∧
    (∀ i j, ((c.after events).entry i).valid = true → ((c.after events).entry j).valid = true →
      ((c.after events).entry i).key = ((c.after events).entry j).key → i = j) ∧
    (∀ i, ((c.after events).entry i).valid = true →
      ((c.after events).entry i).aramOffset = slotOffset i ∧
        slotOffset i + sizeofBnr ≤ aramSize) ∧
    ∀ i j : Fin bnrCacheSize, i ≠ j →
      slotOffset i + sizeofBnr ≤ slotOffset j ∨ slotOffset j + sizeofBnr ≤ slotOffset i := by
  have h : (c.after events).KeepsLast (insertions events) := hempty.keepsLast.after hspares
  refine ⟨fun key bnr => ?_, fun key bnr bnr' banner hget hmem => h.get_eq hget hmem,
    fun i j hi hj hkey => h.unique hi hj hkey, fun i hi => ?_,
    fun i j hij => slotOffset_disjoint hij⟩
  · have hnone : (c.after events).lookup key = none ↔ _ := h.lookup_none_iff
    rw [bnrCacheGet, Option.isSome_map]
    cases hlook : (c.after events).lookup key with
    | none => exact iff_of_false Bool.false_ne_true (hnone.1 hlook)
    | some i =>
        rw [hlook] at hnone
        refine iff_of_true rfl ?_
        by_contra hno
        exact absurd (hnone.2 hno) (Option.some_ne_none i)
  · obtain ⟨_, _, hoffset, _⟩ := h.of_valid hi
    have hsize := slotOffset_add_size i
    refine ⟨hoffset, ?_⟩
    rw [Nat.mul_add] at hsize
    omega

theorem bnrCacheSize_pos : 0 < bnrCacheSize := by
  decide

/-- `bnr_cache` as it is linked. -/
def zeroCache : BnrCache where
  entry := fun _ => ⟨0, 0, false⟩
  nextIndex := ⟨0, bnrCacheSize_pos⟩
  aram := fun _ => ⟨0, none⟩

/-- A banner of equal bytes. -/
def plainBanner (value : UInt8) : Nat → BnrByte :=
  fun _ => ⟨value, none⟩

/-- The second banner under a key is not inserted, and the first one is found. -/
theorem first_banner_found :
    ∃ bnr, bnrCacheGet (zeroCache.after [.put 7 (plainBanner 1), .transfer 0 32 (plainBanner 2),
        .put 7 (plainBanner 3), .get 7 (plainBanner 0), .put 9 (plainBanner 4)]) 7
          (plainBanner 0) = some bnr ∧
      ∀ k < sizeofBnr, bnr k = plainBanner 1 k := by
  obtain ⟨hfound, hbanner, _⟩ :=
    bnrCache_isFifo (show EmptyCache zeroCache from ⟨fun _ => rfl, rfl⟩)
      [.put 7 (plainBanner 1), .transfer 0 32 (plainBanner 2), .put 7 (plainBanner 3),
        .get 7 (plainBanner 0), .put 9 (plainBanner 4)]
      (by simp [CacheEvent.SparesSlots, slotsStart_eq])
  obtain ⟨bnr, hbnr⟩ := Option.isSome_iff_exists.1 ((hfound 7 (plainBanner 0)).2 (by decide))
  refine ⟨bnr, hbnr, hbanner 7 (plainBanner 0) bnr (plainBanner 1) hbnr ?_⟩
  simp [insertions, CacheEvent.inserts, FifoRing.put]

end Games
end Cubiboot
