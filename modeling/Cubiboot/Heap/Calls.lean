import Cubiboot.Heap.Merge

/-!
# Allocating and freeing

`pmalloc_malloc` takes the first free block that is large enough.  If its size is
the one asked for it is handed out whole; if it is the last block and leaves room
for a header, it is cut.  `pmalloc_free` gives a block back and merges around it.
Either way the blocks tile the buffer as before, no two free blocks are
neighbours, and the user memory of every other block is as it was.

Results: `find_meets`, that the search ends at the first free block which is large
enough; `split_meets` and `take_meets`, the two ways in which it is handed out;
`malloc_meets` and `free_meets`, what the two calls do to a heap that is laid out well,
and that they return.
-/

namespace Cubiboot
namespace Heap

open FuelLoop LinkedSegment Regions Words

universe u

variable {α : Type u} {A : Arena} {h h' g : Pmalloc}
variable {bs u v : List (Block α)} {b c : Block α}

theorem nodes_head
    {r : Root} {n : Nat} (hn : (nodes r bs).head? = some n) :
    ∃ u c v, bs = u ++ c :: v ∧ c.root = r ∧ c.addr = n ∧ ∀ b ∈ u, b.root ≠ r := by
  induction bs with
  | nil => simp at hn
  | cons b bs ih =>
      by_cases hb : b.root = r
      · rw [nodes_cons_of hb] at hn
        exact ⟨[], b, bs, rfl, hb, by simpa using hn, by simp⟩
      · rw [nodes_cons_not hb] at hn
        obtain ⟨u, c, v, rfl, hc, hcn, hu⟩ := ih hn
        refine ⟨b :: u, c, v, rfl, hc, hcn, ?_⟩
        intro d hd
        rcases List.mem_cons.1 hd with rfl | hd
        · exact hb
        · exact hu d hd

theorem nodes_empty
    {r : Root} (hn : (nodes r bs).head? = none) : ∀ b ∈ bs, b.root ≠ r := by
  intro b hb hr
  have hmem : b.addr ∈ nodes r bs := mem_nodes.2 ⟨b, hb, hr, rfl⟩
  rw [List.head?_eq_none_iff.1 hn] at hmem
  cases hmem

namespace Layout

/-- No free block before these is large enough. -/
def TooSmall (size : Nat) (u : List (Block α)) : Prop :=
  ∀ b ∈ u, b.root = .available → b.size < size

/-- Where the search may be. -/
def Searching (h₀ : Pmalloc) (bs : List (Block α)) (size : Nat) (s : Pmalloc × Nat) : Prop :=
  s.1 = h₀ ∧ ∃ u v, bs = u ++ v ∧ TooSmall size u ∧ link s.2 = (nodes .available v).head?

/-- Where it ends: at the first block that is large enough, or at no block. -/
def Found (h₀ : Pmalloc) (bs : List (Block α)) (size : Nat) (s : Pmalloc × Nat) : Prop :=
  s.1 = h₀ ∧
    ((s.2 = 0 ∧ TooSmall size bs) ∨
      ∃ u c v, bs = u ++ c :: v ∧ c.addr = s.2 ∧ c.root = .available ∧ size ≤ c.size ∧
        TooSmall size u)

/-- How far the search has still to go. -/
def searchMeasure (s : Pmalloc × Nat) : Nat :=
  if s.2 = 0 then 0 else 0x100000000 - s.2

theorem find_step
    (hL : Layout A h bs) {size : Nat} {s : Pmalloc × Nat} (hs : Searching h bs size s) :
    (∃ out, findBody size s = some (.inr out) ∧ Found h bs size out) ∨
      ∃ s', findBody size s = some (.inl s') ∧ Searching h bs size s' ∧
        searchMeasure s' < searchMeasure s := by
  obtain ⟨h₁, current⟩ := s
  obtain ⟨rfl, u, v, rfl, hu, hlink⟩ := hs
  simp only at hL hlink ⊢
  by_cases hcur : current = 0
  · subst hcur
    refine .inl ⟨(h₁, 0), by simp [findBody], rfl, .inl ⟨rfl, ?_⟩⟩
    intro b hb hr
    rcases List.mem_append.1 hb with hb | hb
    · exact hu b hb hr
    · exact absurd hr (nodes_empty hlink.symm b hb)
  · rw [link_of_ne hcur] at hlink
    obtain ⟨w, c, t, rfl, hc, rfl, hw⟩ := nodes_head hlink.symm
    have hL' : Layout A h₁ ((u ++ w) ++ c :: t) := by simpa using hL
    have hsmall : TooSmall size (u ++ w) := by
      intro b hb hr
      rcases List.mem_append.1 hb with hb | hb
      · exact hu b hb hr
      · exact absurd hr (hw b hb)
    have hsize := hL'.sized c (by simp)
    by_cases hlt : c.size < size
    · -- Too small: on to the next free block.
      have hnext := (hL'.free_fields hc).2
      have ho := (hL'.free_ours hc).2
      have hbounds := hL'.bounds (b := c) (by simp)
      refine .inr ⟨(h₁, h₁.next c.addr), ?_,
        ⟨rfl, (u ++ w) ++ [c], t, by simp, ?_, hnext⟩, ?_⟩
      · have hgo : c.addr ≠ 0 ∧ h₁.size c.addr < size := ⟨hcur, by rw [hsize]; exact hlt⟩
        simp only [findBody]
        rw [if_pos hgo, follow_ours ho, ite_self]
      · intro b hb hr
        rcases List.mem_append.1 hb with hb | hb
        · exact hsmall b hb hr
        · obtain rfl : b = c := by simpa using hb
          exact hlt
      · simp only [searchMeasure, if_neg hcur]
        by_cases hn : h₁.next c.addr = 0
        · rw [if_pos hn]
          omega
        · rw [if_neg hn]
          rw [link_of_ne hn] at hnext
          obtain ⟨d, hd, _, hdn⟩ := mem_nodes.1 (List.mem_of_head? hnext.symm)
          have hcd := hL'.right hd
          simp only [Block.stop] at hcd
          omega
    · refine .inl ⟨(h₁, c.addr), ?_, rfl,
        .inr ⟨u ++ w, c, t, by simp, rfl, hc, by omega, hsmall⟩⟩
      have hstop : ¬ (c.addr ≠ 0 ∧ h₁.size c.addr < size) := by
        rw [hsize]
        rintro ⟨_, hlt'⟩
        exact hlt hlt'
      simp only [findBody]
      rw [if_neg hstop]

/-- The search of `pmalloc_malloc` changes nothing, and finds the first fit. -/
theorem find_meets
    {fuel : Nat} (size : Nat) (hL : Layout A h bs) (hfuel : 0x100000000 ≤ fuel) :
    ∃ out, run (findBody size) fuel (h, h.available) = some out ∧ Found h bs size out := by
  have hmeasure : searchMeasure (h, h.available) < fuel := by
    simp only [searchMeasure]
    split <;> omega
  refine run_meets (Searching h bs size) (Found h bs size) searchMeasure ?_ ?_ hmeasure
  · intro s hs
    exact hL.find_step hs
  · exact ⟨rfl, [], bs, rfl, by simp [TooSmall], (hL.linked .available).root⟩

theorem alike (hL : Layout A h bs) (ha : Alike h h') : Layout A h' bs := by
  refine hL.frame ?_ ha.root ha.wild
  intro b _
  exact ⟨ha.sameAt _, ha.sameAt _, (ha.sameAt _).1, fun _ => (ha.sameAt _).1⟩

theorem keepsUser_alike (b : Block α) (ha : Alike h h') : KeepsUser b h h' :=
  fun a _ _ => ha.sameAt a

/-- The memory after a call: what others hold is as it was. -/
structure Served
    (A : Arena) (h₀ : Pmalloc) (held : List (Block α)) (h : Pmalloc)
    (bs : List (Block α)) : Prop where
  layout : Layout A h bs
  apart : Apart bs
  keeps : ∀ b ∈ held, KeepsUser b h₀ h

/-- The magic word is written into a free block. -/
theorem store_magic
    (hL : Layout A h (u ++ c :: v)) (hc : c.root = .available) {x : Nat} :
    Layout A (h.store (c.addr + 12) x) (u ++ c :: v) ∧
      HeadersOnly (u ++ c :: v) h (h.store (c.addr + 12) x) := by
  have hcmem : c ∈ u ++ c :: v := by simp
  constructor
  · refine hL.frame ?_ (fun r => store_root) store_wild
    intro b hb
    have hbc := hL.apart hb hcmem
    simp only [Block.stop] at hbc
    refine ⟨sameAt_store ?_, sameAt_store ?_, (sameAt_store ?_).1, ?_⟩
    · rcases hbc with rfl | hbc | hbc <;> omega
    · rcases hbc with rfl | hbc | hbc <;> omega
    · rcases hbc with rfl | hbc | hbc <;> omega
    · intro hr
      rcases hbc with rfl | hbc | hbc
      · rw [hc] at hr
        cases hr
      · exact (sameAt_store (by omega)).1
      · exact (sameAt_store (by omega)).1
  · intro a ha
    have hac := ha c hcmem
    exact sameAt_store (by omega)

theorem apart_hold
    (ha : Apart (u ++ c :: v)) (hb : b.root = .assigned) : Apart (u ++ b :: v) := by
  obtain ⟨hu, hcv, _⟩ := List.isChain_append.1 ha
  refine List.isChain_append.2 ⟨hu, List.isChain_cons.2 ⟨?_, hcv.tail⟩, ?_⟩
  · intro e _
    exact .inl hb
  · intro e _ d hd
    obtain rfl : b = d := by simpa using hd
    exact .inr hb

/-- What is above the last block somebody holds is one free block at most. -/
theorem last_free
    (ha : Apart (u ++ c :: v)) (hc : c.root = .available)
    (hv : ∀ b ∈ v, b.root = .available) : v = [] := by
  cases v with
  | nil => rfl
  | cons e v =>
      have hce := (List.isChain_cons_cons.1 (List.isChain_append.1 ha).2.1).1
      rw [hc, hv e (by simp)] at hce
      rcases hce with hce | hce <;> cases hce

/-- The block is moved to the list of assigned blocks. -/
theorem hand_out
    {fuel : Nat} (o : α)
    (hL : Layout A h (u ++ c :: v)) (hc : c.root = .available)
    (hfuel : 0x100000000 ≤ fuel) :
    ∃ h', pmallocItemInsert fuel .assigned
        (pmallocItemRemove .available (h.store (c.addr + 12) 0xFEEDFACE) c.addr) c.addr =
          some h' ∧
      Layout A h' (u ++ c.withOwner (some o) :: v) ∧ HeadersOnly (u ++ c :: v) h h' := by
  obtain ⟨hL₁, hh₁⟩ := hL.store_magic hc (x := 0xFEEDFACE)
  have hmagic : (h.store (c.addr + 12) 0xFEEDFACE).magic c.addr = 0xFEEDFACE := by
    rw [Pmalloc.magic, store_mem, if_pos rfl]
  obtain ⟨h', hins, hL', hlinks⟩ := hL₁.move hc (Block.withOwner_some_root c o) (by decide)
    (fun _ => hmagic) (Alike.refl _) hfuel
  exact ⟨h', hins, hL', hh₁.trans hlinks.headersOnly⟩

/-- Cutting the last block, which has just been handed out. -/
theorem split_meets
    {fuel size : Nat}
    (hL : Layout A h (u ++ [c])) (hc : c.root = .assigned) (ha : Apart (u ++ [c]))
    (hroom : size + 16 ≤ c.size) (hsize4 : size % 4 = 0) (hfuel : 0x100000000 ≤ fuel) :
    ∃ h' bs', splitBlock fuel h c.addr size = some h' ∧
      Served A h (owned (u ++ [c.withSize size])) h' bs' ∧
      owned bs' = owned (u ++ [c.withSize size]) := by
  obtain ⟨rest, hrest⟩ : ∃ rest, c.size = size + 16 + rest := ⟨c.size - size - 16, by omega⟩
  have hbounds := hL.bounds (b := c) (by simp)
  have hnew : word (c.addr + itemBytes + size) = c.addr + 16 + size := by
    rw [word_of_lt (by simp only [itemBytes]; omega)]
  obtain ⟨h₁, hins, hL₁, hh₁⟩ := hL.cut hc hrest hsize4 hfuel
  have hg' : Alike h₁ { h₁ with
      freemem := wordSub h₁.freemem itemBytes
      totalnodes := word (h₁.totalnodes + 1) } := alike_counters h₁ _ _ _
  generalize hg : { h₁ with
      freemem := wordSub h₁.freemem itemBytes
      totalnodes := word (h₁.totalnodes + 1) } = g at hg'
  have hL₂ : Layout A g
      ((u ++ [c.withSize size]) ++ [Block.vacant (c.addr + 16 + size) rest]) := by
    have hL₂ := hL₁.alike hg'
    simpa using hL₂
  have hu' : Apart (u ++ [c.withSize size]) := apart_hold ha hc
  obtain ⟨h', bs', hmerge, hjoined⟩ := hL₂.merge_meets rfl hu' .nil hfuel
  refine ⟨h', bs', ?_, ⟨hjoined.layout, hjoined.apart, ?_⟩, ?_⟩
  · simp only [splitBlock, hnew, hins, Option.bind_some]
    rw [hg]
    exact hmerge
  · intro b hb
    have hb' := (mem_owned.1 hb).1
    have hmem : b ∈ u ++ [c.withSize size, Block.vacant (c.addr + 16 + size) rest] := by
      simp only [List.mem_append, List.mem_cons] at hb' ⊢
      tauto
    have hk₁ := hL₁.keepsUser hmem hh₁
    have hk₂ := hL₂.keepsUser (by simpa using hmem) hjoined.headers
    exact (hk₁.trans (keepsUser_alike b hg')).trans hk₂
  · rw [hjoined.owned, owned_append, owned_cons_not (Block.vacant_root _ _)]
    simp [owned]

/-- Taking a block that fits, or the last one if it leaves room for a header. -/
theorem take_meets
    {fuel size : Nat} (o : α)
    (hL : Layout A h (u ++ c :: v)) (ha : Apart (u ++ c :: v)) (hc : c.root = .available)
    (hfit : c.size = size ∨
      (size + 16 ≤ c.size ∧ ∀ b ∈ v, b.root = .available))
    (hsize4 : size % 4 = 0) (hfuel : 0x100000000 ≤ fuel) :
    ∃ h' bs', takeBlock fuel h c.addr size = some (h', c.addr + 16) ∧
      Served A h (owned (u ++ c :: v)) h' bs' ∧
      owned bs' = owned u ++ (c.withSize size).withOwner (some o) :: owned v := by
  have hbounds := hL.bounds (b := c) (by simp)
  have hptr : word (c.addr + itemBytes) = c.addr + 16 := by
    rw [word_of_lt (by simp only [itemBytes]; omega)]
  obtain ⟨h₁, hins, hL₁, hh₁⟩ := hL.hand_out o hc hfuel
  have hsize : h₁.size c.addr = c.size := hL₁.sized (c.withOwner (some o)) (by simp)
  have ha₁ : Apart (u ++ c.withOwner (some o) :: v) :=
    apart_hold ha (Block.withOwner_some_root c o)
  have hkeep : ∀ b ∈ owned (u ++ c :: v), KeepsUser b h h₁ :=
    fun b hb => hL.keepsUser (mem_owned.1 hb).1 hh₁
  by_cases hexact : c.size = size
  · subst hexact
    have hg := alike_counters h₁ (wordSub h₁.freemem (h₁.size c.addr)) h₁.totalmem h₁.totalnodes
    refine ⟨_, u ++ c.withOwner (some o) :: v, ?_, ⟨hL₁.alike hg, ha₁, ?_⟩, ?_⟩
    · simp only [takeBlock, hins, Option.bind_some, hsize, ne_eq, not_true, if_false, hptr]
    · exact fun b hb => (hkeep b hb).trans (keepsUser_alike b hg)
    · rw [owned_append, owned_cons_of (Block.withOwner_some_root c o)]
      rfl
  · obtain ⟨hroom, hv⟩ := hfit.resolve_left hexact
    obtain rfl : v = [] := last_free ha hc hv
    obtain ⟨h₂, bs', hsplit, hserved, howned⟩ :=
      hL₁.split_meets (Block.withOwner_some_root c o) ha₁ hroom hsize4 hfuel
    have hg := alike_counters h₂ (wordSub h₂.freemem (h₂.size c.addr)) h₂.totalmem h₂.totalnodes
    refine ⟨_, bs', ?_, ⟨hserved.layout.alike hg, hserved.apart, ?_⟩, ?_⟩
    · have hsplit' : splitBlock fuel h₁ c.addr size = some h₂ := hsplit
      simp only [takeBlock, hins, Option.bind_some, hsize, ne_eq, hexact, not_false_eq_true,
        if_true, hsplit', hptr]
    · intro b hb
      have hb' : b ∈ owned (u ++ [(c.withOwner (some o)).withSize size]) := by
        rw [owned_append, owned_cons_not hc] at hb
        rw [owned_append]
        exact List.mem_append_left _ (by simpa [owned] using hb)
      exact ((hkeep b hb).trans (hserved.keeps b hb')).trans (keepsUser_alike b hg)
    · rw [howned, owned_append, owned_cons_of (by simp)]
      rfl

/-- A request of `size` bytes would find a block that fits, or the last one with room. -/
def Fits (bs : List (Block α)) (size : Nat) : Prop :=
  ∀ u c v, bs = u ++ c :: v → c.root = .available → size ≤ c.size → TooSmall size u →
    c.size = size ∨ (size + 16 ≤ c.size ∧ ∀ b ∈ v, b.root = .available)

/-- `pmalloc_malloc`: nothing happens, or the first fit gets an owner. -/
theorem malloc_meets
    {fuel size : Nat} (o : Nat → α)
    (hL : Layout A h bs) (ha : Apart bs)
    (hsize4 : roundWord size % 4 = 0) (hfits : Fits bs (roundWord size))
    (hfuel : 0x100000000 ≤ fuel) :
    (pmallocMalloc fuel h size = some (h, 0) ∧ TooSmall (roundWord size) bs) ∨
      ∃ h' bs' u c v, pmallocMalloc fuel h size = some (h', c.addr + 16) ∧
        bs = u ++ c :: v ∧ c.root = .available ∧
        Served A h (owned bs) h' bs' ∧
        owned bs' =
          owned u ++ (c.withSize (roundWord size)).withOwner (some (o c.addr)) :: owned v := by
  obtain ⟨⟨h₁, current⟩, hrun, rfl, hfound⟩ := find_meets (roundWord size) hL hfuel
  simp only at hL hrun hfound ⊢
  rcases hfound with ⟨rfl, hsmall⟩ | ⟨u, c, v, rfl, rfl, hc, hle, hsmall⟩
  · refine .inl ⟨?_, hsmall⟩
    simp only [pmallocMalloc, hrun, Option.bind_some, if_true]
  · have hbounds := hL.bounds (b := c) (by simp)
    obtain ⟨h', bs', htake, hserved, howned⟩ :=
      hL.take_meets (o c.addr) ha hc (hfits u c v rfl hc hle hsmall) hsize4 hfuel
    refine .inr ⟨h', bs', u, c, v, ?_, rfl, hc, hserved, howned⟩
    simp only [pmallocMalloc, hrun, Option.bind_some]
    rw [if_neg (by omega), htake]

/-- `pmalloc_free` of a block that is held. -/
theorem free_meets
    {fuel : Nat}
    (hL : Layout A h (u ++ c :: v)) (ha : Apart (u ++ c :: v)) (hc : c.root = .assigned)
    (hfuel : 0x100000000 ≤ fuel) :
    ∃ h' bs', pmallocFree fuel h (c.addr + 16) = some h' ∧
      Served A h (owned u ++ owned v) h' bs' ∧ owned bs' = owned u ++ owned v := by
  have hbounds := hL.bounds (b := c) (by simp)
  have hnode : wordSub (c.addr + 16) itemBytes = c.addr := by
    rw [wordSub_of_le (by simp only [itemBytes]; omega) (by omega)]
    simp only [itemBytes]
    omega
  obtain ⟨hu, hcv, _⟩ := List.isChain_append.1 ha
  have hg : Alike (pmallocItemRemove .assigned h c.addr)
      { pmallocItemRemove .assigned h c.addr with
        freemem := word ((pmallocItemRemove .assigned h c.addr).freemem +
          (pmallocItemRemove .assigned h c.addr).size c.addr) } :=
    alike_counters _ _ _ _
  obtain ⟨h₁, hins, hL₁, hlinks⟩ := hL.move hc (Block.withOwner_none_root c) (by decide)
    (fun hr => by cases hr) hg hfuel
  obtain ⟨h', bs', hmerge, hjoined⟩ :=
    hL₁.merge_meets (Block.withOwner_none_root c) hu hcv.tail hfuel
  have howned : owned bs' = owned u ++ owned v := by
    rw [hjoined.owned, owned_append, owned_cons_not (Block.withOwner_none_root c)]
  refine ⟨h', bs', ?_, ⟨hjoined.layout, hjoined.apart, ?_⟩, howned⟩
  · simp only [pmallocFree, hnode]
    rw [if_neg (by omega), hins]
    exact hmerge
  · intro b hb
    rw [← owned_append] at hb
    have hb' := (mem_owned.1 hb).1
    have hmem : b ∈ u ++ c :: v := by
      rcases List.mem_append.1 hb' with hb' | hb' <;> simp [hb']
    have hmem' : b ∈ u ++ c.withOwner none :: v := by
      rcases List.mem_append.1 hb' with hb' | hb' <;> simp [hb']
    exact (hL.keepsUser hmem hlinks.headersOnly).trans
      (hL₁.keepsUser hmem' hjoined.headers)

end Layout

end Heap
end Cubiboot
