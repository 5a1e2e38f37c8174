import Cubiboot.Heap.GameHeap
import Mathlib.Data.List.Perm.Basic

/-!
# What the users hold

Each allocation that is held lies in an owned block of its own: above the padding,
if it was aligned, and below the end of the block.  The calls of the game heap keep
this, as long as every request fits, and so do the writes of the users.

Results: `HeapInv.malloc`, `HeapInv.memalign`, `HeapInv.upngAlloc` and `HeapInv.free`,
one for each call, that it keeps the invariant or returns `NULL` without an effect; and
`HeapInv.write`, that a user who writes into what it holds keeps the invariant too.
-/

namespace Cubiboot
namespace Heap

open FuelLoop LinkedSegment Regions Words

/-- An allocation in its block. -/
structure Holds (h : Pmalloc) (b : Block Allocation) (a : Allocation) : Prop where
  mem : a.mem = b.addr + 16
  above : a.mem ≤ a.ptr
  below : a.ptr + (a.length + 3) / 4 * 4 ≤ b.stop
  word : a.ptr % 4 = 0
  plain : a.align = none → a.ptr = a.mem
  aligned : ∀ k, a.align = some k → a.ptr % k = 0
  padding : ∀ w, a.mem ≤ w → w < a.ptr → w % 4 = 0 → h.mem w ≠ 0xFEEDFACE

/-- The allocations in the blocks. -/
def held (bs : List (Block Allocation)) : List Allocation :=
  (owned bs).filterMap Block.owner

/-- The invariant of a run. -/
structure HeapInv (A : Arena) (s : HeapState) (bs : List (Block Allocation)) : Prop where
  layout : Layout A s.heap bs
  apart : Apart bs
  live : s.live.Perm (held bs)
  holds : ∀ b ∈ owned bs, ∀ a, b.owner = some a → Holds s.heap b a

variable {A : Arena} {s : HeapState} {h h' : Pmalloc} {a : Allocation}
variable {bs bs' u v : List (Block Allocation)} {b c : Block Allocation}

theorem Holds.keep (hh : Holds h b a) (hk : KeepsUser b h h') : Holds h' b a := by
  refine ⟨hh.mem, hh.above, hh.below, hh.word, hh.plain, hh.aligned, ?_⟩
  intro w hw hlt h4
  have hmem := hh.mem
  have hbelow := hh.below
  rw [(hk w (by omega) (by omega)).1]
  exact hh.padding w hw hlt h4

theorem owner_of_assigned (hb : b.root = .assigned) : ∃ a, b.owner = some a := by
  cases ho : b.owner with
  | none => simp [Block.root, ho] at hb
  | some a => exact ⟨a, rfl⟩

/-- The block of an allocation that is held. -/
theorem HeapInv.block_of_live
    (hI : HeapInv A s bs) (ha : a ∈ s.live) :
    ∃ u b v, bs = u ++ b :: v ∧ b.owner = some a ∧ b.root = .assigned ∧ Holds s.heap b a := by
  have ha' := hI.live.mem_iff.1 ha
  obtain ⟨b, hb, hba⟩ := List.mem_filterMap.1 ha'
  obtain ⟨hmem, hroot⟩ := mem_owned.1 hb
  obtain ⟨u, v, rfl⟩ := List.append_of_mem hmem
  exact ⟨u, b, v, rfl, hba, hroot, hI.holds b hb a hba⟩

theorem HeapInv.fits
    {size : Nat} (hL : Layout A h bs) (hroomy : Roomy h size) : Layout.Fits bs size := by
  rintro u c v rfl hc hle hsmall
  have hav := hL.linked .available
  have has := hL.linked .assigned
  have hc' : c.addr ∈ nodes .available (u ++ c :: v) := mem_nodes.2 ⟨c, by simp, hc, rfl⟩
  have hsize := hL.sized c (by simp)
  have hfirst : FirstFit h size c.addr := by
    refine ⟨hav.onList_iff.2 hc', by rw [hsize]; exact hle, ?_⟩
    intro m hm hlt
    obtain ⟨b, hb, hbr, rfl⟩ := mem_nodes.1 (hav.onList_iff.1 hm)
    rw [hL.sized b hb]
    rcases List.mem_append.1 hb with hb' | hb'
    · exact hsmall b hb' hbr
    · rcases List.mem_cons.1 hb' with rfl | hb'
      · omega
      · have hcb := hL.right hb'
        simp only [Block.stop] at hcb
        omega
  have hroom := hroomy c.addr hfirst
  rw [hsize] at hroom
  refine hroom.imp_right fun hroom => ⟨hroom.1, ?_⟩
  intro b hb
  cases hbr : b.root with
  | available => rfl
  | assigned =>
      have hcb := hL.right hb
      have hbn : b.addr ∈ nodes .assigned (u ++ c :: v) := mem_nodes.2 ⟨b, by simp [hb], hbr, rfl⟩
      have hlt := hroom.2 b.addr (has.onList_iff.2 hbn)
      simp only [Block.stop] at hcb
      omega

theorem held_append : held (u ++ v) = held u ++ held v := by
  simp [held]

theorem held_cons_of (ho : b.owner = some a) : held (b :: bs) = a :: held bs := by
  have hb : b.root = .assigned := by simp [Block.root, ho]
  rw [held, owned_cons_of hb, List.filterMap_cons_some ho]
  rfl

theorem held_cons_not (hb : b.root = .available) : held (b :: bs) = held bs := by
  rw [held, owned_cons_not hb]
  rfl

/-- The blocks after a call that handed out one of them. -/
structure HandedOut (A : Arena) (s : HeapState) (h : Pmalloc)
    (bs : List (Block Allocation)) (b : Block Allocation) (a : Allocation) : Prop where
  layout : Layout A h bs
  apart : Apart bs
  live : (a :: s.live).Perm (held bs)
  owner : b.owner = some a
  mem : b ∈ owned bs
  holds : ∀ c ∈ owned bs, c = b ∨
    ((c.stop ≤ b.addr ∨ b.stop ≤ c.addr) ∧ ∀ a, c.owner = some a → Holds h c a)

/-- `pmalloc_malloc`: `NULL` and nothing has changed, or a block for the allocation. -/
theorem HeapInv.malloc
    {fuel size : Nat} (o : Nat → Allocation)
    (hI : HeapInv A s bs) (hsmall : size + 3 < 0x100000000)
    (hroomy : Roomy s.heap (roundWord size)) (hfuel : 0x100000000 ≤ fuel) :
    pmallocMalloc fuel s.heap size = some (s.heap, 0) ∨
      ∃ h' bs' b, pmallocMalloc fuel s.heap size = some (h', b.addr + 16) ∧
        b.size = (size + 3) / 4 * 4 ∧ HandedOut A s h' bs' b (o b.addr) := by
  have hround := roundWord_of_lt hsmall
  rcases hI.layout.malloc_meets o hI.apart (by rw [hround]; exact Nat.mul_mod_left _ _)
      (HeapInv.fits hI.layout hroomy) hfuel with
    ⟨hnull, _⟩ | ⟨h', bs', u, c, v, hcall, rfl, hc, hserved, howned⟩
  · exact .inl hnull
  · generalize hb : (c.withSize (roundWord size)).withOwner (some (o c.addr)) = b at howned
    have hbaddr : b.addr = c.addr := by rw [← hb]; rfl
    have hbowner : b.owner = some (o b.addr) := by rw [← hb]; rfl
    have hbsize : b.size = (size + 3) / 4 * 4 := by rw [← hb, ← hround]; rfl
    have hbroot : b.root = .assigned := by rw [← hb]; rfl
    have hbmem : b ∈ owned bs' := by rw [howned]; simp
    refine .inr ⟨h', bs', b, by rw [hbaddr]; exact hcall, hbsize, hserved.layout,
      hserved.apart, ?_, hbowner, hbmem, ?_⟩
    · have hnew : held bs' = held u ++ o b.addr :: held v := by
        rw [held, howned, List.filterMap_append, List.filterMap_cons_some hbowner]
        rfl
      have hold : held (u ++ c :: v) = held u ++ held v := by
        rw [held_append, held_cons_not hc]
      rw [hnew]
      refine (List.Perm.cons _ ?_).trans List.perm_middle.symm
      exact hold ▸ hI.live
    · intro d hd
      have hd' := hd
      rw [howned] at hd'
      simp only [List.mem_append, List.mem_cons] at hd'
      by_cases hdb : d = b
      · exact .inl hdb
      · have hdold : d ∈ owned (u ++ c :: v) := by
          rw [owned_append, owned_cons_not hc]
          simp only [List.mem_append]
          tauto
        refine .inr ⟨?_, ?_⟩
        · exact (hserved.layout.apart (mem_owned.1 hd).1 (mem_owned.1 hbmem).1).resolve_left hdb
        · intro a ha
          exact (hI.holds d hdold a ha).keep (hserved.keeps d hdold)

/-- A held block makes the invariant whole again. -/
theorem HandedOut.inv
    (hh : HandedOut A s h bs b a) (hb : Holds h b a) (hne : a.ptr ≠ 0) :
    HeapInv A (s.allocated h a) bs := by
  refine ⟨hh.layout, hh.apart, ?_, ?_⟩
  · simp only [HeapState.allocated, if_neg hne]
    exact hh.live
  · intro c hc d hd
    rcases hh.holds c hc with rfl | ⟨_, hholds⟩
    · have hdo := hh.owner
      rw [hd] at hdo
      cases hdo
      exact hb
    · exact hholds d hd

/-- The padding of an aligned allocation is written inside its own block. -/
theorem HandedOut.fill
    {n : Nat} (hh : HandedOut A s h bs b a) (hn : b.addr + 16 + 4 * n ≤ b.stop) :
    HandedOut A s (fillPadding h (b.addr + 16) n) bs b a := by
  obtain ⟨hwild, hroot⟩ := fillPadding_rest h (b.addr + 16) n
  have hbmem := (mem_owned.1 hh.mem).1
  refine ⟨?_, hh.apart, hh.live, hh.owner, hh.mem, ?_⟩
  · refine hh.layout.frame ?_ hroot hwild
    intro d hd
    have hdb := hh.layout.apart hd hbmem
    simp only [Block.stop] at hdb hn
    have hout : ∀ k, k < 16 →
        SameAt h (fillPadding h (b.addr + 16) n) (d.addr + k) := by
      intro k hk
      refine fillPadding_sameAt ?_
      rcases hdb with rfl | hdb | hdb <;> omega
    exact ⟨hout 0 (by omega), hout 4 (by omega), (hout 8 (by omega)).1,
      fun _ => (hout 12 (by omega)).1⟩
  · intro d hd
    refine (hh.holds d hd).imp_right fun hold => ⟨hold.1, ?_⟩
    have hapart := hold.1
    intro e he
    refine (hold.2 e he).keep ?_
    intro w hw hlt
    refine fillPadding_sameAt ?_
    simp only [Block.stop] at hapart hlt hn
    omega

/-- `pmalloc_memalign`: `NULL` and nothing has changed, or an aligned allocation. -/
theorem HeapInv.memalign
    {fuel size align : Nat}
    (hI : HeapInv A s bs) (hpow : ∃ k, align = 2 ^ k)
    (hsmall : size + align + 3 < 0x100000000)
    (hroomy : Roomy s.heap (roundWord (size + align))) (hfuel : 0x100000000 ≤ fuel) :
    (pmallocMalloc fuel s.heap (word (size + align)) = some (s.heap, 0) ∧
        pmallocMemalign fuel s.heap size align = some (s.heap, 0)) ∨
      ∃ h₁ mem h' ptr bs',
        pmallocMalloc fuel s.heap (word (size + align)) = some (h₁, mem) ∧
        pmallocMemalign fuel s.heap size align = some (h', ptr) ∧ ptr ≠ 0 ∧
        HeapInv A (s.allocated h' ⟨ptr, size, some align, mem⟩) bs' := by
  have hword : word (size + align) = size + align := word_of_lt (by omega)
  rw [hword]
  rcases hI.malloc
      (fun addr => ⟨alignAddress (addr + 16) align, size, some align, addr + 16⟩)
      hsmall hroomy hfuel with
    hnull | ⟨h₁, bs', b, hcall, hbsize, hh⟩
  · refine .inl ⟨hnull, ?_⟩
    simp only [pmallocMemalign, hword, hnull, Option.bind_some, if_true]
  · obtain ⟨k, hk⟩ := hpow
    have hbmem := (mem_owned.1 hh.mem).1
    have hbounds := hh.layout.bounds hbmem
    have hb4 := hh.layout.addr_word hbmem
    obtain ⟨hle, hmod, hptr4, hfit⟩ :=
      alignAddress_spec (b.addr + 16) size hk (by omega) (by omega)
    generalize hptr : alignAddress (b.addr + 16) align = ptr at hle hmod hptr4 hfit hh
    have hoffset : wordSub ptr (b.addr + 16) = ptr - (b.addr + 16) :=
      wordSub_of_le hle (by omega)
    have hstop : b.stop = b.addr + 16 + (size + align + 3) / 4 * 4 := by
      rw [Block.stop, hbsize]
    have hfill := hh.fill (n := (ptr - (b.addr + 16)) / 4) (by omega)
    refine .inr ⟨h₁, b.addr + 16, _, ptr, bs', hcall, ?_, by omega, hfill.inv ?_ ?_⟩
    · simp only [pmallocMemalign, hword, hcall, Option.bind_some, hptr, hoffset]
      rw [if_neg (by omega)]
    · refine ⟨rfl, hle, by rw [hstop]; exact hfit, hptr4, by simp, ?_, ?_⟩
      · intro m hm
        obtain rfl : align = m := by simpa using hm
        exact hmod
      · intro w hw hlt hw4
        simp only at hw hlt
        obtain ⟨i, hi⟩ : ∃ i, w = b.addr + 16 + 4 * i := ⟨(w - (b.addr + 16)) / 4, by omega⟩
        rw [hi, fillPadding_mem (by omega)]
        decide
    · simp only
      omega

/-- `gm_upng_alloc`: `NULL` and nothing has changed, or an allocation. -/
theorem HeapInv.upngAlloc
    {fuel size : Nat}
    (hI : HeapInv A s bs) (hsmall : size + 3 < 0x100000000)
    (hroomy : Roomy s.heap (roundWord size)) (hfuel : 0x100000000 ≤ fuel) :
    gmUpngAlloc fuel s.heap size = some (s.heap, 0) ∨
      ∃ h' ptr bs', gmUpngAlloc fuel s.heap size = some (h', ptr) ∧ ptr ≠ 0 ∧
        HeapInv A (s.allocated h' ⟨ptr, size, none, ptr⟩) bs' := by
  have hword : word size = size := word_of_lt (by omega)
  rw [gmUpngAlloc, hword]
  rcases hI.malloc (fun addr => ⟨addr + 16, size, none, addr + 16⟩) hsmall hroomy hfuel with
    hnull | ⟨h', bs', b, hcall, hbsize, hh⟩
  · exact .inl hnull
  · have hbmem := (mem_owned.1 hh.mem).1
    have hb4 := hh.layout.addr_word hbmem
    refine .inr ⟨h', b.addr + 16, bs', hcall, by omega, hh.inv ?_ (by simp)⟩
    refine ⟨rfl, Nat.le_refl _, ?_, ?_, fun _ => rfl, by simp, ?_⟩
    · simp only [Block.stop, hbsize]
      omega
    · simp only
      omega
    · intro w hw hlt
      simp only at hw hlt
      omega

/-- The pointer that was allocated is found again. -/
theorem HeapInv.original
    {fuel : Nat} (hI : HeapInv A s bs) (ha : a ∈ s.live) (hfuel : 0x100000000 ≤ fuel) :
    originalPointer fuel s.heap a.ptr = some a.mem := by
  obtain ⟨u, b, v, rfl, _, hbr, hh⟩ := hI.block_of_live ha
  have hbounds := hI.layout.bounds (b := b) (by simp)
  have hb4 := hI.layout.addr_word (b := b) (by simp)
  have hmem := hh.mem
  have hbelow := hh.below
  simp only [Block.stop] at hbelow
  have hmagic : s.heap.mem (a.mem - 4) = 0xFEEDFACE := by
    have hm := hI.layout.magic b (by simp) hbr
    rw [hmem]
    exact hm
  exact original_meets hh.above (by omega) (by omega) hh.word (by omega) hmagic hh.padding hfuel

/-- A block that is given back. -/
theorem HeapInv.free
    {fuel : Nat} (hI : HeapInv A s bs) (ha : a ∈ s.live) (hfuel : 0x100000000 ≤ fuel) :
    ∃ h' bs', pmallocFree fuel s.heap a.mem = some h' ∧ HeapInv A (s.freed h' a) bs' ∧
      ∀ n, OnList h' .assigned n ↔ OnList s.heap .assigned n ∧ n ≠ a.mem - itemBytes := by
  obtain ⟨u, b, v, rfl, hbo, hbr, hh⟩ := hI.block_of_live ha
  obtain ⟨h', bs', hcall, hserved, howned⟩ := hI.layout.free_meets hI.apart hbr hfuel
  have hspaced := hI.layout.nodes_spaced .assigned
  have hnodes : nodes .assigned (u ++ b :: v) =
      nodes .assigned u ++ b.addr :: nodes .assigned v := by
    rw [nodes_append, nodes_cons_of hbr]
  have hnodes' : nodes .assigned bs' = nodes .assigned u ++ nodes .assigned v := by
    change (owned bs').map Block.addr = _
    rw [howned, List.map_append]
    rfl
  rw [hnodes] at hspaced
  refine ⟨h', bs', by rw [hh.mem]; exact hcall, ⟨hserved.layout, hserved.apart, ?_, ?_⟩, ?_⟩
  · have hheld : held (u ++ b :: v) = held u ++ a :: held v := by
      rw [held_append, held_cons_of hbo]
    have hheld' : held bs' = held u ++ held v := by
      rw [held, howned, List.filterMap_append]
      rfl
    have hperm : s.live.Perm (a :: (held u ++ held v)) := by
      have hlive := hI.live
      rw [hheld] at hlive
      exact hlive.trans List.perm_middle
    rw [hheld']
    have herase := hperm.erase a
    rwa [List.erase_cons_head] at herase
  · intro d hd e he
    rw [howned, ← owned_append] at hd
    have hd' : d ∈ owned (u ++ b :: v) := by
      rw [owned_append] at hd
      rw [owned_append, owned_cons_of hbr]
      rcases List.mem_append.1 hd with hd | hd <;> simp [hd]
    refine (hI.holds d hd' e he).keep (hserved.keeps d ?_)
    rw [owned_append] at hd
    exact hd
  · intro n
    rw [(hserved.layout.linked .assigned).onList_iff, (hI.layout.linked .assigned).onList_iff,
      hnodes, hnodes', hh.mem]
    simp only [itemBytes, Nat.add_sub_cancel, List.mem_append, List.mem_cons]
    constructor
    · rintro (hn | hn)
      · have hlt := hspaced.left hn
        exact ⟨.inl hn, by omega⟩
      · have hlt := hspaced.right hn
        exact ⟨.inr (.inr hn), by omega⟩
    · rintro ⟨hn | rfl | hn, hne⟩
      · exact .inl hn
      · exact absurd rfl hne
      · exact .inr hn

/-- A user writes into what it holds. -/
theorem HeapInv.write
    {w x : Nat} (hI : HeapInv A s bs) (ha : a ∈ s.live)
    (hle : a.ptr ≤ w) (hlt : w < a.ptr + a.length) (h4 : w % 4 = 0) :
    HeapInv A ⟨s.heap.userStore w x, s.live⟩ bs := by
  obtain ⟨u, b, v, rfl, hbo, hbr, hh⟩ := hI.block_of_live ha
  have hbmem : b ∈ u ++ b :: v := by simp
  have hmem := hh.mem
  have habove := hh.above
  have hbelow := hh.below
  have hptr4 := hh.word
  simp only [Block.stop] at hbelow
  have hother : ∀ y, y ≠ w → SameAt s.heap (s.heap.userStore w x) y := by
    intro y hy
    constructor
    · exact Function.update_of_ne hy x s.heap.mem
    · exact Function.update_of_ne hy false s.heap.ours
  refine ⟨?_, hI.apart, hI.live, ?_⟩
  · refine hI.layout.frame ?_ (fun r => by cases r <;> rfl) rfl
    intro d hd
    have hdb := hI.layout.apart hd hbmem
    simp only [Block.stop] at hdb
    have hout : ∀ k, k < 16 → SameAt s.heap (s.heap.userStore w x) (d.addr + k) := by
      intro k hk
      refine hother _ ?_
      rcases hdb with rfl | hdb | hdb <;> omega
    exact ⟨hout 0 (by omega), hout 4 (by omega), (hout 8 (by omega)).1,
      fun _ => (hout 12 (by omega)).1⟩
  · intro d hd e he
    have hd' := (mem_owned.1 hd).1
    have hold := hI.holds d hd e he
    rcases hI.layout.apart hd' hbmem with rfl | hdb
    · -- The block written to: the word lies above the padding.
      rw [hbo] at he
      cases he
      refine ⟨hold.mem, hold.above, hold.below, hold.word, hold.plain, hold.aligned, ?_⟩
      intro y hy hylt hy4
      rw [(hother y (by omega)).1]
      exact hold.padding y hy hylt hy4
    · refine hold.keep fun y hy hylt => hother y ?_
      simp only [Block.stop] at hdb hylt
      omega

end Heap
end Cubiboot
