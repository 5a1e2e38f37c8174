import Cubiboot.Heap.Layout
import Mathlib.Data.List.Chain

/-!
# Merging free neighbours

After a block has been freed, `pmalloc_merge` scans back to the first of the free
blocks that follow one another up to it, and then joins to that one every free
block that follows.  If no two free blocks were neighbours below it nor above it,
then none are afterwards.

Results: `join`, one step of the merge as a step from layout to layout; `backward_meets`
and `forward_meets`, the two loops, each by induction on what it still has to pass; and
`merge_meets`, that `pmalloc_merge` returns and leaves no two free blocks side by side.
The blocks with an owner are the same before and after.
-/

namespace Cubiboot
namespace Heap

open FuelLoop LinkedSegment Regions Words

universe u

variable {α : Type u} {A : Arena} {h h' g : Pmalloc}
variable {bs u v : List (Block α)} {b c : Block α}

/-- No two free blocks are neighbours. -/
def Apart (bs : List (Block α)) : Prop :=
  bs.IsChain fun b c => b.root = .assigned ∨ c.root = .assigned

/-- The blocks somebody holds. -/
def owned (bs : List (Block α)) : List (Block α) :=
  bs.filter fun b => b.root = .assigned

@[simp] theorem owned_append : owned (u ++ v) = owned u ++ owned v := by
  simp [owned]

theorem owned_cons_of (h : b.root = .assigned) : owned (b :: bs) = b :: owned bs := by
  simp [owned, h]

theorem owned_cons_not (h : b.root = .available) : owned (b :: bs) = owned bs := by
  simp [owned, h]

theorem mem_owned : b ∈ owned bs ↔ b ∈ bs ∧ b.root = .assigned := by
  simp [owned]

/-- Free blocks, and then blocks none of which are free neighbours. -/
def Ragged (bs : List (Block α)) : Prop :=
  ∃ w t, bs = w ++ t ∧ (∀ e ∈ w, e.root = .available) ∧ Apart t

theorem Ragged.tail (h : Ragged (b :: bs)) : Ragged bs := by
  obtain ⟨w, t, heq, hw, ht⟩ := h
  cases w with
  | nil =>
      obtain rfl : b :: bs = t := heq
      exact ⟨[], bs, rfl, by simp, ht.tail⟩
  | cons e w =>
      obtain ⟨rfl, rfl⟩ : b = e ∧ bs = w ++ t := by simpa using heq
      exact ⟨w, t, rfl, fun d hd => hw d (List.mem_cons_of_mem _ hd), ht⟩

theorem Ragged.apart (h : Ragged (b :: bs)) (hb : b.root = .assigned) :
    Apart (b :: bs) := by
  obtain ⟨w, t, heq, hw, ht⟩ := h
  cases w with
  | nil =>
      obtain rfl : b :: bs = t := heq
      exact ht
  | cons e w =>
      obtain ⟨rfl, _⟩ : b = e ∧ bs = w ++ t := by simpa using heq
      have hfree := hw b (by simp)
      rw [hb] at hfree
      cases hfree

/-- A free block between owned ones, or at either end. -/
theorem apart_insert
    (hu : Apart u) (hv : Apart v)
    (hlast : ∀ e, u.getLast? = some e → e.root = .assigned)
    (hhead : ∀ e, v.head? = some e → e.root = .assigned) :
    Apart (u ++ b :: v) := by
  refine List.isChain_append.2 ⟨hu, List.isChain_cons.2 ⟨?_, hv⟩, ?_⟩
  · intro e he
    exact .inr (hhead e he)
  · intro e he _ _
    exact .inl (hlast e he)

namespace Layout

/-- Neighbours meet. -/
theorem adjacent (hL : Layout A h (u ++ b :: c :: v)) : b.stop = c.addr := by
  have ht := hL.tiles
  rw [List.map_append] at ht
  obtain ⟨x, _, _, hc, _⟩ := tiles_append.1 ht
  rw [← Block.extent_stop]
  exact hc.symm

/--
The blocks of a layout in which one has taken the next: that one, and the others apart
from it.
-/
theorem mem_joined (hL : Layout A h (u ++ b :: c :: v)) {n : Nat} {e : Block α}
    (he : e ∈ u ++ b.withSize n :: v) :
    e = b.withSize n ∨ e ∈ u ++ b :: c :: v ∧
      (e.addr + 16 ≤ b.addr ∨ b.addr + 16 ≤ e.addr) := by
  rcases List.mem_append.1 he with he | he
  · have hlt := hL.left he
    simp only [Block.stop] at hlt
    exact .inr ⟨List.mem_append_left _ he, by omega⟩
  · rcases List.mem_cons.1 he with he | he
    · exact .inl he
    · have hlt := hL.right (b := e) (List.mem_cons_of_mem c he)
      simp only [Block.stop] at hlt
      refine .inr ⟨?_, by omega⟩
      simp [he]

/-- The block that has taken the next ends where that one ended. -/
theorem joined_stop (hL : Layout A h (u ++ b :: c :: v)) :
    (b.withSize (b.size + 16 + c.size)).extent.stop = c.extent.stop := by
  have hmeet := hL.adjacent
  simp only [Block.stop] at hmeet
  simp only [Block.extent, Block.withSize, Region.stop, itemBytes]
  omega

/-- The extents still tile the arena when a block has taken the next. -/
theorem joined_tiles (hL : Layout A h (u ++ b :: c :: v)) :
    Tiles A.start ((u ++ b.withSize (b.size + 16 + c.size) :: v).map Block.extent) A.stop := by
  have ht := hL.tiles
  rw [List.map_append] at ht ⊢
  obtain ⟨x, hu, hbx, _, hv⟩ := tiles_append.1 ht
  refine tiles_append.2 ⟨x, hu, hbx, ?_⟩
  rw [hL.joined_stop]
  exact hv

/-- Only the block that was taken leaves the list of free blocks. -/
theorem joined_available (hb : b.root = .available) (n : Nat) :
    nodes .available (u ++ b.withSize n :: v) =
      (nodes .available u ++ [b.addr]) ++ nodes .available v := by
  rw [nodes_append, nodes_cons_of (Block.withSize_root b n ▸ hb)]
  simp

/-- No owned block has changed. -/
theorem joined_assigned (hb : b.root = .available) (hc : c.root = .available) (n : Nat) :
    nodes .assigned (u ++ b.withSize n :: v) = nodes .assigned (u ++ b :: c :: v) := by
  rw [nodes_append, nodes_append,
    nodes_cons_not (by rw [Block.withSize_root, hb]; decide),
    nodes_cons_not (by rw [hb]; decide), nodes_cons_not (by rw [hc]; decide)]

/-- A free block takes the one that follows it. -/
theorem join
    (hL : Layout A h (u ++ b :: c :: v))
    (hb : b.root = .available) (hc : c.root = .available)
    (hh : Alike h h') (hg : Alike (pmallocItemRemove .available h' c.addr) g) :
    g.size b.addr = b.size ∧
    Layout A (g.store (b.addr + 8) (b.size + 16 + c.size))
      (u ++ b.withSize (b.size + 16 + c.size) :: v) ∧
    HeadersOnly (u ++ b :: c :: v) h
      (g.store (b.addr + 8) (b.size + 16 + c.size)) := by
  have hold : nodes .available (u ++ b :: c :: v) =
      (nodes .available u ++ [b.addr]) ++ c.addr :: nodes .available v := by
    rw [nodes_append, nodes_cons_of hb, nodes_cons_of hc]
    simp
  have hl := (hL.linked .available).alike hh
  have hs := hL.nodes_spaced .available
  rw [hold] at hl hs
  have hup := (itemRemove_update hl hs).alike hg
  have hlinked := (itemRemove_linked hl hs).alike hg
  rw [← hold] at hup
  have hbmem : b ∈ u ++ b :: c :: v := by simp
  have htiles := hL.joined_tiles
  generalize hn : b.size + 16 + c.size = n at htiles
  have hsame : ∀ a, a ≠ b.addr + 8 →
      (∀ m ∈ nodes .available (u ++ b :: c :: v), a ≠ m ∧ a ≠ m + 4) →
      SameAt h (g.store (b.addr + 8) n) a := by
    intro a hab ha
    exact ((hh.sameAt a).trans (hup.links a ha)).trans (sameAt_store hab)
  -- The rest of every header: `size`, but for the block's own, and `magic`.
  have hrest : ∀ e ∈ u ++ b :: c :: v, ∀ a, a = e.addr + 8 ∨ a = e.addr + 12 →
      a ≠ b.addr + 8 → SameAt h (g.store (b.addr + 8) n) a := by
    intro e he a ha hab
    refine hsame a hab fun m hm => ?_
    have hem := hL.header_apart he hm
    omega
  have hnode : ∀ r, ∀ m ∈ nodes r (u ++ b :: c :: v),
      b.addr + 8 ≠ m ∧ b.addr + 8 ≠ m + 4 := by
    intro r m hm
    have hbm := hL.header_apart hbmem hm
    omega
  have hsize : SameAt h g (b.addr + 8) :=
    (hh.sameAt _).trans (hup.links _ (hnode .available))
  refine ⟨hsize.1.trans (hL.sized b hbmem), ?_, ?_⟩
  · constructor
    case tiles => exact htiles
    case words =>
      intro e he
      rcases hL.mem_joined he with rfl | ⟨he, _⟩
      · have hb4 := hL.words b hbmem
        have hc4 := hL.words c (by simp)
        simp only [Block.withSize_size]
        omega
      · exact hL.words e he
    case sized =>
      intro e he
      rcases hL.mem_joined he with rfl | ⟨he, hne⟩
      · simp [Pmalloc.size, store_mem]
      · have hcell := hrest e he (e.addr + 8) (.inl rfl) (by omega)
        rw [Pmalloc.size, hcell.1]
        exact hL.sized e he
    case linked =>
      intro r
      cases r with
      | available =>
          rw [joined_available hb]
          refine hlinked.store fun m hm => hnode .available m ?_
          rw [hold]
          simp only [List.mem_append, List.mem_cons] at hm ⊢
          tauto
      | assigned =>
          rw [joined_assigned hb hc]
          refine Linked.store ?_ (hnode .assigned)
          refine ((hL.linked .assigned).alike hh).frame_update hup (by decide) ?_
          intro m hm k hk
          exact hL.lists_apart (by decide) hm hk
    case magic =>
      intro e he hr
      rcases hL.mem_joined he with rfl | ⟨he, hne⟩
      · rw [Block.withSize_root, hb] at hr
        cases hr
      · have hcell := hrest e he (e.addr + 12) (.inr rfl) (by omega)
        rw [Pmalloc.magic, hcell.1]
        exact hL.magic e he hr
    case calm =>
      rw [store_wild, hup.wild, hh.wild, hL.calm]
  · intro a ha
    have hab := ha b hbmem
    refine hsame a (by omega) fun m hm => ?_
    obtain ⟨e, he, _, rfl⟩ := mem_nodes.1 hm
    have hae := ha e he
    omega

/-- The neighbours of a free block on the list of free blocks. -/
theorem free_fields
    (hL : Layout A h (u ++ b :: v)) (hb : b.root = .available) :
    link (h.prev b.addr) = (nodes .available u).getLast? ∧
      link (h.next b.addr) = (nodes .available v).head? := by
  have hl := hL.linked .available
  rw [nodes_append, nodes_cons_of hb] at hl
  exact hl.fields

theorem free_ours
    (hL : Layout A h (u ++ b :: v)) (hb : b.root = .available) :
    h.ours b.addr = true ∧ h.ours (b.addr + 4) = true := by
  refine (hL.linked .available).ours b.addr ?_
  exact mem_nodes.2 ⟨b, by simp, hb, rfl⟩

/-- Where the scan backward may be: only free blocks lie between it and its start. -/
def Behind (h₀ : Pmalloc) (bs v : List (Block α)) (s : Pmalloc × Nat) : Prop :=
  s.1 = h₀ ∧ ∃ u b w, bs = u ++ b :: (w ++ v) ∧ b.addr = s.2 ∧ b.root = .available ∧
    (∀ e ∈ w, e.root = .available) ∧ Apart u

/-- Where it ends: below is no free neighbour. -/
def AtFirst (h₀ : Pmalloc) (bs v : List (Block α)) (s : Pmalloc × Nat) : Prop :=
  s.1 = h₀ ∧ ∃ u b w, bs = u ++ b :: (w ++ v) ∧ b.addr = s.2 ∧ b.root = .available ∧
    (∀ e ∈ w, e.root = .available) ∧ Apart u ∧
    ∀ e, u.getLast? = some e → e.root = .assigned

theorem backward_step
    (hL : Layout A h bs) {s : Pmalloc × Nat} (hs : Behind h bs v s) :
    (∃ out, backwardBody s = some (.inr out) ∧ AtFirst h bs v out) ∨
      ∃ s', backwardBody s = some (.inl s') ∧ Behind h bs v s' ∧ s'.2 < s.2 := by
  obtain ⟨h₁, node⟩ := s
  obtain ⟨rfl, u, b, w, rfl, rfl, hb, hw, hu⟩ := hs
  simp only at hL ⊢
  have hprev := (hL.free_fields hb).1
  have ho := (hL.free_ours hb).1
  rcases u.eq_nil_or_concat with rfl | ⟨u, e, rfl⟩
  · -- There is no block below.
    have hzero : h₁.prev b.addr = 0 := link_eq_none.1 hprev
    refine .inl ⟨(h₁, b.addr), ?_, rfl, [], b, w, rfl, rfl, hb, hw, hu, by simp⟩
    simp only [backwardBody, hzero, if_true]
  · rw [List.concat_eq_append] at *
    have hL' : Layout A h₁ (u ++ e :: b :: (w ++ v)) := by simpa using hL
    have hstop := hL'.adjacent
    have hebounds := hL'.bounds (b := e) (by simp)
    simp only [Block.stop] at hstop
    cases her : e.root with
    | available =>
        -- The scan moves on to the free block below.
        have hlast : (nodes .available (u ++ [e])).getLast? = some e.addr := by
          rw [nodes_append, nodes_cons_of her, nodes_nil]
          simp
        obtain ⟨hp, hp0⟩ := link_eq_some.1 (hprev.trans hlast)
        have hcont : b.addr = word (h₁.prev b.addr + itemBytes + h₁.size (h₁.prev b.addr)) := by
          rw [hp, hL'.sized e (by simp), word_of_lt (by simp only [itemBytes]; omega)]
          exact hstop.symm
        refine .inr ⟨(h₁, e.addr), ?_, ⟨rfl, u, e, b :: w, by simp, rfl, her, ?_, ?_⟩, ?_⟩
        · simp only [backwardBody]
          rw [if_neg (by rw [hp]; exact hp0), if_pos hcont, follow_ours ho, hp]
        · intro d hd
          rcases List.mem_cons.1 hd with rfl | hd
          · exact hb
          · exact hw d hd
        · exact hu.left_of_append
        · simp only
          omega
    | assigned =>
        -- The block below is held, so the free one found, if any, does not reach up to here.
        have hnodes : nodes .available (u ++ [e]) = nodes .available u := by
          rw [nodes_append, nodes_cons_not (by rw [her]; decide), nodes_nil, List.append_nil]
        rw [hnodes] at hprev
        refine .inl ⟨(h₁, b.addr), ?_, rfl, u ++ [e], b, w, rfl, rfl, hb, hw, hu, ?_⟩
        · simp only [backwardBody]
          by_cases hp : h₁.prev b.addr = 0
          · rw [if_pos hp]
          · rw [link_of_ne hp] at hprev
            obtain ⟨d, hd, _, hdp⟩ := mem_nodes.1 (List.mem_of_getLast? hprev.symm)
            have hde := hL'.left hd
            simp only [Block.stop] at hde
            have hfar : ¬ b.addr =
                word (h₁.prev b.addr + itemBytes + h₁.size (h₁.prev b.addr)) := by
              rw [← hdp, hL'.sized d (by simp [hd]),
                word_of_lt (by simp only [itemBytes]; omega)]
              simp only [itemBytes]
              omega
            rw [if_neg hp, if_neg hfar, follow_ours ho]
        · intro d hd
          obtain rfl : e = d := by simpa using hd
          exact her

/-- The scan backward ends at the first of the free blocks that reach up to its start. -/
theorem backward_meets
    {fuel : Nat}
    (hL : Layout A h (u ++ c :: v)) (hc : c.root = .available) (hu : Apart u)
    (hfuel : 0x100000000 ≤ fuel) :
    ∃ out, run backwardBody fuel (h, c.addr) = some out ∧
      AtFirst h (u ++ c :: v) v out := by
  have hbounds := hL.bounds (b := c) (by simp)
  refine run_meets (Behind h (u ++ c :: v) v) (AtFirst h (u ++ c :: v) v)
    (fun s : Pmalloc × Nat => s.2) ?_ ?_ (by omega : c.addr < fuel)
  · intro s hs
    exact hL.backward_step hs
  · exact ⟨rfl, u, c, [], rfl, rfl, hc, by simp, hu⟩

/-- Where the scan forward may be: what it has still to join comes first. -/
structure Joining
    (A : Arena) (h₀ : Pmalloc) (bs : List (Block α)) (s : Pmalloc × Nat)
    (u : List (Block α)) (b : Block α) (v : List (Block α)) : Prop where
  layout : Layout A s.1 (u ++ b :: v)
  node : b.addr = s.2
  free : b.root = .available
  below : Apart u
  last : ∀ e, u.getLast? = some e → e.root = .assigned
  above : Ragged v
  headers : HeadersOnly bs h₀ s.1
  sub : ∀ e ∈ u ++ b :: v, ∃ d ∈ bs, d.addr = e.addr
  owned : owned (u ++ b :: v) = owned bs

/-- What is left when there is nothing more to join. -/
structure Joined
    (A : Arena) (h₀ : Pmalloc) (bs : List (Block α)) (h : Pmalloc)
    (bs' : List (Block α)) : Prop where
  layout : Layout A h bs'
  apart : Apart bs'
  headers : HeadersOnly bs h₀ h
  owned : owned bs' = owned bs

/-- The scan forward ends when no free block follows. -/
theorem forward_stop
    (hL : Layout A h (u ++ b :: v)) (hb : b.root = .available)
    (hhead : ∀ e, v.head? = some e → e.root = .assigned) :
    forwardBody (h, b.addr) = some (.inr h) := by
  have hnext := (hL.free_fields hb).2
  have hbounds := hL.bounds (b := b) (by simp)
  have hword : word (b.addr + itemBytes + h.size b.addr) = b.addr + 16 + b.size := by
    rw [hL.sized b (by simp), word_of_lt (by simp only [itemBytes]; omega)]
  have hfar : ¬ h.next b.addr = b.addr + 16 + b.size := by
    intro heq
    rw [heq, link_of_ne (by omega)] at hnext
    obtain ⟨d, hd, hdr, hdn⟩ := mem_nodes.1 (List.mem_of_head? hnext.symm)
    cases v with
    | nil => cases hd
    | cons e v =>
        have her := hhead e rfl
        have hstop := hL.adjacent
        rcases List.mem_cons.1 hd with rfl | hd
        · rw [her] at hdr
          cases hdr
        · have hL' : Layout A h ((u ++ [b]) ++ e :: v) := by simpa using hL
          have hed := hL'.right hd
          simp only [Block.stop] at hstop hed
          omega
  simp only [forwardBody, hword]
  rw [if_neg hfar]

/-- The scan forward joins the free block that follows. -/
theorem forward_join
    (hL : Layout A h (u ++ b :: c :: v))
    (hb : b.root = .available) (hc : c.root = .available) :
    ∃ h', forwardBody (h, b.addr) = some (.inl (h', b.addr)) ∧
      Layout A h' (u ++ b.withSize (b.size + 16 + c.size) :: v) ∧
      HeadersOnly (u ++ b :: c :: v) h h' := by
  have hnext := (hL.free_fields hb).2
  have ho := (hL.free_ours hb).2
  have hL' : Layout A h ((u ++ [b]) ++ c :: v) := by simpa using hL
  have hcbounds := hL.bounds (b := c) (by simp)
  have hstop := hL.adjacent
  simp only [Block.stop] at hstop
  rw [nodes_cons_of hc] at hnext
  have hn : h.next b.addr = c.addr := (link_eq_some.1 hnext).1
  have hword : word (b.addr + itemBytes + h.size b.addr) = c.addr := by
    rw [hL.sized b (by simp), word_of_lt (by simp only [itemBytes]; omega)]
    exact hstop
  have hnode : word (h.size c.addr + itemBytes) = c.size + 16 := by
    rw [hL.sized c (by simp), word_of_lt (by simp only [itemBytes]; omega)]
  have hh : Alike h { h with freemem := word (h.freemem + itemBytes) } :=
    alike_counters h _ _ _
  generalize hh₁ : { h with freemem := word (h.freemem + itemBytes) } = h₁ at hh
  generalize hg₀ : pmallocItemRemove .available h₁ c.addr = g₀
  have hg : Alike g₀ { g₀ with totalnodes := wordSub g₀.totalnodes 1 } :=
    alike_counters g₀ _ _ _
  generalize hg₁ : { g₀ with totalnodes := wordSub g₀.totalnodes 1 } = g at hg
  obtain ⟨hsize, hlayout, hheaders⟩ := hL.join hb hc hh (hg₀ ▸ hg)
  have hnew : word (g.size b.addr + (c.size + 16)) = b.size + 16 + c.size := by
    rw [hsize, word_of_lt (by omega)]
    omega
  refine ⟨g.store (b.addr + 8) (b.size + 16 + c.size), ?_, hlayout, hheaders⟩
  simp only [forwardBody]
  rw [if_pos (hn.trans hword.symm)]
  simp only [follow_ours ho, hn, hnode, hh₁, hg₀, hg₁, hnew]

theorem forward_step
    {h₀ : Pmalloc} {s : Pmalloc × Nat} (hs : Joining A h₀ bs s u b v) :
    (∃ h', forwardBody s = some (.inr h') ∧ Joined A h₀ bs h' (u ++ b :: v)) ∨
      ∃ s' b' v', forwardBody s = some (.inl s') ∧ Joining A h₀ bs s' u b' v' ∧
        0xFFFFFFFF - s'.1.size s'.2 < 0xFFFFFFFF - s.1.size s.2 := by
  obtain ⟨h₁, node⟩ := s
  obtain ⟨hL, hnode, hb, hu, hlast, hv, hh, hsub, howned⟩ := hs
  simp only at hL hnode hh ⊢
  subst hnode
  by_cases hhead : ∀ e, v.head? = some e → e.root = .assigned
  · have hv' : Apart v := by
      cases v with
      | nil => exact .nil
      | cons e v => exact hv.apart (hhead e rfl)
    exact .inl ⟨h₁, hL.forward_stop hb hhead, hL, apart_insert hu hv' hlast hhead, hh, howned⟩
  · obtain ⟨e, hve, her⟩ : ∃ e, v.head? = some e ∧ e.root = .available := by
      by_contra hno
      refine hhead fun e he => ?_
      cases her : e.root with
      | available => exact absurd ⟨e, he, her⟩ hno
      | assigned => rfl
    obtain ⟨v, rfl⟩ : ∃ t, v = e :: t := List.head?_eq_some_iff.1 hve
    obtain ⟨h', hbody, hL', hh'⟩ := hL.forward_join hb her
    have hebounds := hL.bounds (b := e) (by simp)
    have hstop := hL.adjacent
    simp only [Block.stop] at hstop
    refine .inr ⟨(h', b.addr), b.withSize (b.size + 16 + e.size), v, hbody, ?_, ?_⟩
    · constructor
      case layout => exact hL'
      case node => rfl
      case free => exact hb
      case below => exact hu
      case last => exact hlast
      case above => exact hv.tail
      case headers => exact hh.trans (hh'.mono hsub)
      case sub =>
        intro d hd
        rcases List.mem_append.1 hd with hd | hd
        · exact hsub d (List.mem_append_left _ hd)
        · rcases List.mem_cons.1 hd with rfl | hd
          · exact hsub b (by simp)
          · exact hsub d (by simp [hd])
      case owned =>
        rw [← howned, owned_append, owned_append, owned_cons_not hb, owned_cons_not her,
          owned_cons_not (Block.withSize_root b _ ▸ hb)]
    · have hsize := hL'.sized (b.withSize (b.size + 16 + e.size)) (by simp)
      simp only [Block.withSize_addr, Block.withSize_size] at hsize
      simp only [hsize, hL.sized b (by simp)]
      omega

/-- The scan forward leaves no free neighbours. -/
theorem forward_meets
    {h₀ : Pmalloc} {s : Pmalloc × Nat} {fuel : Nat}
    (hs : Joining A h₀ bs s u b v) (hfuel : 0x100000000 ≤ fuel) :
    ∃ h' bs', run forwardBody fuel s = some h' ∧ Joined A h₀ bs h' bs' := by
  have hloop : ∃ h', run forwardBody fuel s = some h' ∧ ∃ bs', Joined A h₀ bs h' bs' := by
    refine run_meets (fun s => ∃ u b v, Joining A h₀ bs s u b v)
      (fun h' => ∃ bs', Joined A h₀ bs h' bs') (fun s => 0xFFFFFFFF - s.1.size s.2)
      ?_ ⟨u, b, v, hs⟩ (by omega : 0xFFFFFFFF - s.1.size s.2 < fuel)
    rintro s ⟨u, b, v, hs⟩
    rcases forward_step hs with ⟨h', hbody, hpost⟩ | ⟨s', b', v', hbody, hs', hlt⟩
    · exact .inl ⟨h', hbody, _, hpost⟩
    · exact .inr ⟨s', hbody, ⟨u, b', v', hs'⟩, hlt⟩
  obtain ⟨h', hrun, bs', hpost⟩ := hloop
  exact ⟨h', bs', hrun, hpost⟩

/-- `pmalloc_merge` around a free block. -/
theorem merge_meets
    {fuel : Nat}
    (hL : Layout A h (u ++ c :: v)) (hc : c.root = .available)
    (hu : Apart u) (hv : Apart v) (hfuel : 0x100000000 ≤ fuel) :
    ∃ h' bs', pmallocMerge fuel h c.addr = some h' ∧
      Joined A h (u ++ c :: v) h' bs' := by
  obtain ⟨⟨h₁, node⟩, hback, rfl, t, b, w, hbs, rfl, hb, hw, ht, hlast⟩ :=
    hL.backward_meets hc hu hfuel
  simp only at hL hback hbs ⊢
  rw [hbs] at hL ⊢
  have hjoin : Joining A h₁ (t ++ b :: (w ++ v)) (h₁, b.addr) t b (w ++ v) := by
    refine ⟨hL, rfl, hb, ht, hlast, ⟨w, v, rfl, hw, hv⟩, ?_, ?_, rfl⟩
    · exact fun _ _ => ⟨rfl, rfl⟩
    · exact fun e he => ⟨e, he, rfl⟩
  obtain ⟨h', bs', hrun, hpost⟩ := forward_meets hjoin hfuel
  refine ⟨h', bs', ?_, hpost⟩
  rw [pmallocMerge, hback]
  exact hrun

end Layout

end Heap
end Cubiboot
