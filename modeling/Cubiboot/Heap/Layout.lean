import Cubiboot.Foundations.Regions
import Cubiboot.Heap.Links

/-!
# The blocks of the heap

The blocks of the heap tile its buffer, in the order of their addresses, and each
one is free or has an owner.  `Layout A h bs` says that the memory `h` holds the
blocks `bs`: their sizes stand in their headers, the free ones are the list
`available` and the owned ones the list `assigned`.

A layout depends on the headers only (`Layout.frame`).  Moving a block from one
list to the other, cutting the last block in two and joining two neighbours are
steps from layout to layout, and touch nothing but headers.

Results: `apart`, that two blocks never overlap; `inside`, that none reaches beyond the
buffer; `Layout.frame`; and `move`, `cut` and `HeadersOnly.trans`, with which the calls
of the allocator are put together.
-/

namespace Cubiboot
namespace Heap

open FuelLoop LinkedSegment Regions Words

universe u

/-- A block: its header, the size of its user memory, and who holds it. -/
structure Block (α : Type u) where
  addr : Nat
  size : Nat
  owner : Option α

variable {α : Type u}

namespace Block

/-- The list a block is on. -/
def root (b : Block α) : Root :=
  match b.owner with
  | none => .available
  | some _ => .assigned

/-- The header and the user memory. -/
def extent (b : Block α) : Region :=
  ⟨b.addr, itemBytes + b.size⟩

def stop (b : Block α) : Nat :=
  b.addr + 16 + b.size

def withOwner (b : Block α) (o : Option α) : Block α :=
  { b with owner := o }

/-- A free block. -/
def vacant (addr size : Nat) : Block α :=
  ⟨addr, size, none⟩

def withSize (b : Block α) (size : Nat) : Block α :=
  { b with size := size }

@[simp] theorem withOwner_addr (b : Block α) (o : Option α) :
    (b.withOwner o).addr = b.addr := rfl

@[simp] theorem withOwner_size (b : Block α) (o : Option α) :
    (b.withOwner o).size = b.size := rfl

@[simp] theorem withSize_addr (b : Block α) (size : Nat) :
    (b.withSize size).addr = b.addr := rfl

@[simp] theorem withSize_size (b : Block α) (size : Nat) :
    (b.withSize size).size = size := rfl

@[simp] theorem vacant_addr (addr size : Nat) :
    (vacant addr size : Block α).addr = addr := rfl

@[simp] theorem vacant_size (addr size : Nat) :
    (vacant addr size : Block α).size = size := rfl

@[simp] theorem withSize_root (b : Block α) (size : Nat) :
    (b.withSize size).root = b.root := rfl

@[simp] theorem withOwner_some_root (b : Block α) (o : α) :
    (b.withOwner (some o)).root = .assigned := rfl

@[simp] theorem withOwner_none_root (b : Block α) :
    (b.withOwner none).root = .available := rfl

@[simp] theorem vacant_root (addr size : Nat) :
    (vacant addr size : Block α).root = .available := rfl

@[simp] theorem extent_offset (b : Block α) : b.extent.offset = b.addr := rfl

theorem extent_stop (b : Block α) : b.extent.stop = b.stop := by
  simp only [extent, Region.stop, stop, itemBytes]
  omega

@[simp] theorem withOwner_extent (b : Block α) (o : Option α) :
    (b.withOwner o).extent = b.extent := rfl

end Block

/-- The headers of the blocks on a list. -/
def nodes (r : Root) (bs : List (Block α)) : List Nat :=
  (bs.filter fun b => b.root = r).map Block.addr

section Nodes

variable {r : Root} {b : Block α} {bs u v : List (Block α)} {n : Nat}

@[simp] theorem nodes_nil : nodes r ([] : List (Block α)) = [] := rfl

@[simp] theorem nodes_append : nodes r (u ++ v) = nodes r u ++ nodes r v := by
  simp [nodes]

theorem nodes_cons_of (h : b.root = r) : nodes r (b :: bs) = b.addr :: nodes r bs := by
  simp [nodes, h]

theorem nodes_cons_not (h : b.root ≠ r) : nodes r (b :: bs) = nodes r bs := by
  simp [nodes, h]

theorem mem_nodes : n ∈ nodes r bs ↔ ∃ b ∈ bs, b.root = r ∧ b.addr = n := by
  simp [nodes, and_assoc]

theorem spaced_nodes (hs : Spaced (bs.map Block.addr)) : Spaced (nodes r bs) :=
  hs.sublist (List.filter_sublist.map Block.addr)

end Nodes

/-- Where the blocks are. -/
structure Arena where
  start : Nat
  stop : Nat
  pos : 0 < start
  bounded : stop < 0x100000000
  aligned : start % 4 = 0

/-- The memory holds these blocks. -/
structure Layout (A : Arena) (h : Pmalloc) (bs : List (Block α)) : Prop where
  tiles : Tiles A.start (bs.map Block.extent) A.stop
  words : ∀ b ∈ bs, b.size % 4 = 0
  sized : ∀ b ∈ bs, h.size b.addr = b.size
  linked : ∀ r, Linked h r (nodes r bs)
  magic : ∀ b ∈ bs, b.root = .assigned → h.magic b.addr = 0xFEEDFACE
  calm : h.wild = false

/-- Only words of the headers of `bs` have changed. -/
def HeadersOnly (bs : List (Block α)) (h h' : Pmalloc) : Prop :=
  ∀ a, (∀ b ∈ bs, a < b.addr ∨ b.addr + 16 ≤ a) → SameAt h h' a

/-- The user memory of `b` is as it was. -/
def KeepsUser (b : Block α) (h h' : Pmalloc) : Prop :=
  ∀ a, b.addr + 16 ≤ a → a < b.stop → SameAt h h' a

variable {A : Arena} {h h' : Pmalloc} {bs u v : List (Block α)} {b c : Block α}

theorem HeadersOnly.trans
    {h'' : Pmalloc} (h₁ : HeadersOnly bs h h') (h₂ : HeadersOnly bs h' h'') :
    HeadersOnly bs h h'' :=
  fun a ha => (h₁ a ha).trans (h₂ a ha)

theorem HeadersOnly.mono
    {cs : List (Block α)}
    (hh : HeadersOnly bs h h') (hsub : ∀ b ∈ bs, ∃ c ∈ cs, c.addr = b.addr) :
    HeadersOnly cs h h' := by
  intro a ha
  refine hh a fun b hb => ?_
  obtain ⟨c, hc, heq⟩ := hsub b hb
  rw [← heq]
  exact ha c hc

theorem LinksOnly.headersOnly
    (hl : LinksOnly (bs.map Block.addr) h h') : HeadersOnly bs h h' := by
  intro a ha
  refine hl a fun n hn => ?_
  obtain ⟨b, hb, rfl⟩ := List.mem_map.1 hn
  have hab := ha b hb
  omega

theorem KeepsUser.trans
    {h'' : Pmalloc} (h₁ : KeepsUser b h h') (h₂ : KeepsUser b h' h'') :
    KeepsUser b h h'' :=
  fun a ha ha' => (h₁ a ha ha').trans (h₂ a ha ha')

theorem KeepsUser.refl (b : Block α) (h : Pmalloc) : KeepsUser b h h :=
  fun _ _ _ => ⟨rfl, rfl⟩

namespace Layout

theorem left (hL : Layout A h (u ++ c :: v)) (hb : b ∈ u) : b.stop ≤ c.addr := by
  have ht := hL.tiles
  rw [List.map_append, List.map_cons] at ht
  have hin := (ht.split.1.inside (List.mem_map_of_mem (f := Block.extent) hb)).2
  rw [Block.extent_stop] at hin
  exact hin

theorem right (hL : Layout A h (u ++ c :: v)) (hb : b ∈ v) : c.stop ≤ b.addr := by
  have ht := hL.tiles
  rw [List.map_append, List.map_cons] at ht
  have hin := (ht.split.2.inside (List.mem_map_of_mem (f := Block.extent) hb)).1
  rw [Block.extent_stop] at hin
  exact hin

theorem inside (hL : Layout A h bs) (hb : b ∈ bs) :
    A.start ≤ b.addr ∧ b.stop ≤ A.stop := by
  have hin := hL.tiles.inside (List.mem_map_of_mem (f := Block.extent) hb)
  rw [Block.extent_stop] at hin
  exact hin

/-- Headers begin at words. -/
theorem addr_word (hL : Layout A h bs) (hb : b ∈ bs) : b.addr % 4 = 0 := by
  refine hL.tiles.aligned (r := b.extent) A.aligned ?_ (List.mem_map_of_mem hb)
  intro r hr
  obtain ⟨c, hc, rfl⟩ := List.mem_map.1 hr
  have hc4 := hL.words c hc
  simp only [Block.extent, itemBytes]
  omega

/-- Two blocks are one, or do not overlap. -/
theorem apart (hL : Layout A h bs) (hb : b ∈ bs) (hc : c ∈ bs) :
    b = c ∨ b.stop ≤ c.addr ∨ c.stop ≤ b.addr := by
  obtain ⟨u, v, rfl⟩ := List.append_of_mem hb
  rcases List.mem_append.1 hc with hc | hc
  · exact .inr (.inr (hL.left hc))
  · rcases List.mem_cons.1 hc with rfl | hc
    · exact .inl rfl
    · exact .inr (.inl (hL.right hc))

/-- The headers are apart. -/
theorem spaced (hL : Layout A h bs) : Spaced (bs.map Block.addr) := by
  have hord := List.pairwise_map.1 hL.tiles.ordered
  refine List.pairwise_map.2 (hord.imp ?_)
  intro b c hbc
  simp only [Block.extent, Region.stop] at hbc
  omega

theorem nodes_spaced (hL : Layout A h bs) (r : Root) : Spaced (nodes r bs) :=
  spaced_nodes hL.spaced

/-- A block lies above the start, and below the end of memory. -/
theorem bounds (hL : Layout A h bs) (hb : b ∈ bs) :
    0 < b.addr ∧ b.addr + 16 + b.size < 0x100000000 := by
  have hin := hL.inside hb
  have hpos := A.pos
  have hlt := A.bounded
  simp only [Block.stop] at hin
  omega

/-- Headers, and so links, of distinct blocks do not meet. -/
theorem header_apart
    (hL : Layout A h bs) (hb : b ∈ bs) {r : Root} {n : Nat} (hn : n ∈ nodes r bs) :
    (n = b.addr ∧ b.root = r) ∨ n + 16 ≤ b.addr ∨ b.addr + 16 ≤ n := by
  obtain ⟨c, hc, hr, rfl⟩ := mem_nodes.1 hn
  rcases hL.apart hb hc with rfl | hbc | hcb
  · exact .inl ⟨rfl, hr⟩
  · simp only [Block.stop] at hbc
    omega
  · simp only [Block.stop] at hcb
    omega

/-- Changes to headers keep the user memory of every block. -/
theorem keepsUser
    (hL : Layout A h bs) (hb : b ∈ bs) {g g' : Pmalloc} (hh : HeadersOnly bs g g') :
    KeepsUser b g g' := by
  intro a ha ha'
  refine hh a fun c hc => ?_
  have hbc := hL.apart hb hc
  simp only [Block.stop] at ha' hbc
  rcases hbc with rfl | hbc | hcb
  · exact .inr ha
  · omega
  · omega

/-- The nodes of the two lists are apart. -/
theorem lists_apart
    (hL : Layout A h bs) {r r' : Root} (hne : r ≠ r') {n m : Nat}
    (hn : n ∈ nodes r bs) (hm : m ∈ nodes r' bs) :
    n + 16 ≤ m ∨ m + 16 ≤ n := by
  obtain ⟨b, hb, hr, rfl⟩ := mem_nodes.1 hn
  rcases hL.header_apart hb hm with ⟨_, hr'⟩ | hlt | hlt
  · exact absurd (hr.symm.trans hr') hne
  · exact .inr hlt
  · exact .inl hlt

/-- The header of a block is as it was, its `magic` if it is owned. -/
structure SameHeader (h h' : Pmalloc) (b : Block α) : Prop where
  prev : SameAt h h' b.addr
  next : SameAt h h' (b.addr + 4)
  size : h'.mem (b.addr + 8) = h.mem (b.addr + 8)
  magic : b.root = .assigned → h'.mem (b.addr + 12) = h.mem (b.addr + 12)

theorem frame
    (hL : Layout A h bs)
    (hsame : ∀ b ∈ bs, SameHeader h h' b)
    (hroot : ∀ r, h'.root r = h.root r) (hwild : h'.wild = h.wild) :
    Layout A h' bs := by
  refine ⟨hL.tiles, hL.words, ?_, ?_, ?_, hwild.trans hL.calm⟩
  · intro b hb
    exact (hsame b hb).size.trans (hL.sized b hb)
  · intro r
    refine (hL.linked r).frame (hroot r) ?_
    intro n hn
    obtain ⟨b, hb, _, rfl⟩ := mem_nodes.1 hn
    exact ⟨(hsame b hb).prev, (hsame b hb).next⟩
  · intro b hb hr
    exact ((hsame b hb).magic hr).trans (hL.magic b hb hr)

/-- Changing links leaves the rest of each header. -/
theorem link_apart
    (hs : Spaced (bs.map Block.addr)) (hb : b ∈ bs)
    (hl : LinksOnly (bs.map Block.addr) h h') :
    SameAt h h' (b.addr + 8) ∧ SameAt h h' (b.addr + 12) := by
  have hb' := List.mem_map_of_mem (f := Block.addr) hb
  constructor
  · refine hl _ fun n hn => ?_
    have hbn := hs.apart hb' hn
    omega
  · refine hl _ fun n hn => ?_
    have hbn := hs.apart hb' hn
    omega

/-- The lists when a block is taken off one and put on the other. -/
theorem move_lists
    {fuel : Nat} {o : Option α} {r r' : Root} {g : Pmalloc}
    (hL : Layout A h (u ++ c :: v))
    (hr : c.root = r) (hr' : (c.withOwner o).root = r') (hne : r ≠ r')
    (hg : Alike (pmallocItemRemove r h c.addr) g)
    (hfuel : 0x100000000 ≤ fuel) :
    ∃ h', pmallocItemInsert fuel r' g c.addr = some h' ∧
      (∀ q, Linked h' q (nodes q (u ++ c.withOwner o :: v))) ∧
      LinksOnly ((u ++ c :: v).map Block.addr) h h' ∧ h'.wild = h.wild := by
  have hs := hL.spaced
  have hs' : Spaced ((u ++ c.withOwner o :: v).map Block.addr) := by
    simpa [Block.withOwner] using hs
  have hc : c ∈ u ++ c :: v := by simp
  -- The list `r` loses the block.
  have hold : nodes r (u ++ c :: v) = nodes r u ++ c.addr :: nodes r v := by
    rw [nodes_append, nodes_cons_of hr]
  have hlr := hL.linked r
  have hsr := spaced_nodes (r := r) hs
  rw [hold] at hlr hsr
  have hup := (itemRemove_update hlr hsr).alike hg
  have hdet := hg.detached (itemRemove_detached hlr hsr)
  have hlr' := (itemRemove_linked hlr hsr).alike hg
  -- The list `r'` is as it was, and gains the block.
  have hother : nodes r' (u ++ c :: v) = nodes r' u ++ nodes r' v := by
    rw [nodes_append, nodes_cons_not (by rw [hr]; exact hne)]
  have hnew : nodes r' (u ++ c.withOwner o :: v) = nodes r' u ++ c.addr :: nodes r' v := by
    rw [nodes_append, nodes_cons_of hr']
    rfl
  have hapart : ∀ n ∈ nodes r' u ++ nodes r' v, ∀ m ∈ nodes r u ++ c.addr :: nodes r v,
      n + 16 ≤ m ∨ m + 16 ≤ n := by
    intro n hn m hm
    rw [← hother] at hn
    rw [← hold] at hm
    exact hL.lists_apart hne.symm hn hm
  have hl' := hL.linked r'
  have hs'' := spaced_nodes (r := r') hs'
  rw [hother] at hl'
  rw [hnew] at hs''
  have hcpos := (hL.bounds hc).1
  have hclt := (hL.bounds hc).2
  obtain ⟨h', hins, hsp⟩ := itemInsert_spliced (hl'.frame_update hup hne.symm hapart) hs''
    (by omega) (fun _ _ => ⟨hdet.prev, hdet.prev_ours⟩)
    (fun _ _ => ⟨hdet.next, hdet.next_ours⟩) (by omega : c.addr < fuel)
  refine ⟨h', hins, fun q => ?_, (hup.links.mono ?_).trans (hsp.update.links.mono ?_), ?_⟩
  · by_cases hq : q = r'
    · subst hq
      rw [hnew]
      exact hsp.linked (hl'.frame_update hup hne.symm hapart) hs'' (by omega)
    · obtain rfl : q = r := by
        cases q <;> cases r <;> cases r' <;> simp_all
      have hnodes : nodes q (u ++ c.withOwner o :: v) = nodes q u ++ nodes q v := by
        rw [nodes_append, nodes_cons_not (by rw [hr']; exact hne.symm)]
      rw [hnodes]
      refine hlr'.frame_update hsp.update hne ?_
      intro n hn m hm
      have hn' : n ∈ nodes q u ++ c.addr :: nodes q v := by
        simp only [List.mem_append, List.mem_cons] at hn ⊢
        tauto
      by_cases hmc : m = c.addr
      · subst hmc
        rcases List.mem_append.1 hn with hn | hn
        · exact .inl (hsr.left hn)
        · exact .inr (hsr.right hn)
      · have hm' : m ∈ nodes r' u ++ nodes r' v := by
          simp only [List.mem_append, List.mem_cons] at hm ⊢
          tauto
        exact (hapart m hm' n hn').symm
  · intro n hn
    rw [← hold] at hn
    obtain ⟨b, hb, _, rfl⟩ := mem_nodes.1 hn
    exact List.mem_map_of_mem hb
  · intro n hn
    rw [← hnew] at hn
    obtain ⟨b, hb, _, rfl⟩ := mem_nodes.1 hn
    have hb' := List.mem_map_of_mem (f := Block.addr) hb
    simpa [Block.withOwner] using hb'
  · rw [hsp.wild, hup.wild]

/-- A block is taken off its list and put on the other one. -/
theorem move
    {fuel : Nat} {o : Option α} {r r' : Root} {g : Pmalloc}
    (hL : Layout A h (u ++ c :: v))
    (hr : c.root = r) (hr' : (c.withOwner o).root = r') (hne : r ≠ r')
    (hmagic : r' = .assigned → h.magic c.addr = 0xFEEDFACE)
    (hg : Alike (pmallocItemRemove r h c.addr) g)
    (hfuel : 0x100000000 ≤ fuel) :
    ∃ h', pmallocItemInsert fuel r' g c.addr = some h' ∧
      Layout A h' (u ++ c.withOwner o :: v) ∧
      LinksOnly ((u ++ c :: v).map Block.addr) h h' := by
  have hs := hL.spaced
  have hc : c ∈ u ++ c :: v := by simp
  obtain ⟨h', hins, hlinked, hlinks, hwild⟩ := hL.move_lists hr hr' hne hg hfuel
  have hplace : ∀ b ∈ u ++ c.withOwner o :: v,
      b = c.withOwner o ∨ b ∈ u ++ c :: v := by
    intro b hb
    simp only [List.mem_append, List.mem_cons] at hb ⊢
    tauto
  refine ⟨h', hins, ?_, hlinks⟩
  constructor
  case tiles =>
    have ht := hL.tiles
    simpa using ht
  case words =>
    intro b hb
    rcases hplace b hb with rfl | hb
    · exact hL.words c hc
    · exact hL.words b hb
  case sized =>
    intro b hb
    rcases hplace b hb with rfl | hb
    · exact (link_apart hs hc hlinks).1.1.trans (hL.sized c hc)
    · exact (link_apart hs hb hlinks).1.1.trans (hL.sized b hb)
  case linked => exact hlinked
  case magic =>
    intro b hb hroot
    rcases hplace b hb with rfl | hb
    · exact (link_apart hs hc hlinks).2.1.trans (hmagic (hr'.symm.trans hroot))
    · exact (link_apart hs hb hlinks).2.1.trans (hL.magic b hb hroot)
  case calm => rw [hwild, hL.calm]

theorem cutHeaders_mem
    {current newfree size a : Nat} (hlt : current + 16 ≤ newfree) :
    (cutHeaders h current newfree size).mem a =
      if a = current + 8 then size
      else if a = current + 4 then 0
      else if a = newfree + 4 then h.next current
      else if a = newfree + 8 then wordSub (wordSub (h.size current) itemBytes) size
      else h.mem a := by
  have hne : current + 4 ≠ newfree + 8 := by omega
  simp only [cutHeaders, Pmalloc.next, store_mem, if_neg hne]

theorem cutHeaders_ours
    {current newfree size a : Nat} :
    (cutHeaders h current newfree size).ours a =
      if a = current + 8 ∨ a = current + 4 ∨ a = newfree + 4 ∨ a = newfree + 8 then true
      else h.ours a := by
  simp only [cutHeaders, store_ours, ite_or]

theorem cutHeaders_rest
    {current newfree size : Nat} :
    (cutHeaders h current newfree size).wild = h.wild ∧
      ∀ r, (cutHeaders h current newfree size).root r = h.root r := by
  simp [cutHeaders]

/-- The memory in the middle of a cut: the headers are written, the lists are as they were. -/
structure CutState
    (h g : Pmalloc) (addr newfree size rest : Nat) : Prop where
  mem : ∀ a, g.mem a =
    if a = addr + 8 then size
    else if a = addr + 4 then 0
    else if a = newfree + 4 then 0
    else if a = newfree + 8 then rest
    else h.mem a
  ours : ∀ a, g.ours a =
    if a = addr + 8 ∨ a = addr + 4 ∨ a = newfree + 4 ∨ a = newfree + 8 then true
    else h.ours a
  wild : g.wild = h.wild
  root : ∀ r, g.root r = h.root r

section Cut

variable {size rest fuel newfree : Nat} {g : Pmalloc}

/-- The last block has no neighbour above it. -/
theorem last_next
    (hL : Layout A h (u ++ [c])) (hr : c.root = .assigned) : h.next c.addr = 0 := by
  have hla := hL.linked .assigned
  rw [nodes_append, nodes_cons_of hr] at hla
  exact link_eq_none.1 hla.fields.2

theorem cutState
    (hL : Layout A h (u ++ [c])) (hr : c.root = .assigned)
    (hsize : c.size = size + 16 + rest) :
    CutState h (cutHeaders h c.addr (c.addr + 16 + size) size)
      c.addr (c.addr + 16 + size) size rest := by
  have hbounds := hL.bounds (b := c) (by simp)
  have hrest : wordSub (wordSub (h.size c.addr) itemBytes) size = rest := by
    have hsub : wordSub c.size itemBytes = size + rest := by
      rw [wordSub_of_le (by simp only [itemBytes]; omega) (by omega)]
      simp only [itemBytes]
      omega
    rw [hL.sized c (by simp), hsub, wordSub_of_le (by omega) (by omega)]
    omega
  refine ⟨fun a => ?_, fun a => cutHeaders_ours, cutHeaders_rest.1, cutHeaders_rest.2⟩
  rw [cutHeaders_mem (Nat.le_add_right _ _), last_next hL hr, hrest]

/-- Below the block and in its own links nothing has changed. -/
theorem CutState.sameAt
    (hg : CutState h g c.addr newfree size rest)
    (hL : Layout A h (u ++ [c])) (hr : c.root = .assigned)
    (hnf : c.addr + 16 ≤ newfree) {a : Nat} (ha : a < c.addr + 8) :
    SameAt h g a := by
  have hla := hL.linked .assigned
  rw [nodes_append, nodes_cons_of hr] at hla
  by_cases hnext : a = c.addr + 4
  · subst hnext
    constructor
    · rw [hg.mem, if_neg (by omega), if_pos rfl]
      exact (last_next hL hr).symm
    · rw [hg.ours, if_pos (by simp), (hla.ours c.addr (by simp)).2]
  · constructor
    · rw [hg.mem, if_neg (by omega), if_neg hnext, if_neg (by omega), if_neg (by omega)]
    · rw [hg.ours, if_neg (by omega)]

/-- The list of free blocks takes the remainder at its end. -/
theorem CutState.insert
    (hg : CutState h g c.addr newfree size rest)
    (hL : Layout A h (u ++ [c])) (hr : c.root = .assigned)
    (hnf : c.addr + 16 ≤ newfree) (hfuel : newfree < fuel) :
    ∃ h', pmallocItemInsert fuel .available g newfree = some h' ∧
      Linked h' .available (nodes .available u ++ [newfree]) ∧
      LinkUpdate .available (nodes .available u ++ [newfree]) g h' := by
  have havailable : nodes .available (u ++ [c]) = nodes .available u := by
    rw [nodes_append, nodes_cons_not (by rw [hr]; decide), nodes_nil, List.append_nil]
  have hbelow : ∀ n ∈ nodes .available u, n + 16 ≤ c.addr := by
    intro n hn
    obtain ⟨b, hb, _, rfl⟩ := mem_nodes.1 hn
    have hlt := hL.left hb
    simp only [Block.stop] at hlt
    omega
  have hl : Linked g .available (nodes .available u ++ []) := by
    rw [List.append_nil]
    refine (havailable ▸ hL.linked .available).frame (hg.root _) ?_
    intro n hn
    have hlt := hbelow n hn
    exact ⟨hg.sameAt hL hr hnf (by omega), hg.sameAt hL hr hnf (by omega)⟩
  have hs : Spaced (nodes .available u ++ [newfree]) := by
    refine List.pairwise_append.2 ⟨?_, List.pairwise_singleton _ _, ?_⟩
    · exact havailable ▸ hL.nodes_spaced .available
    · intro n hn y hy
      have hlt := hbelow n hn
      obtain rfl : y = newfree := by simpa using hy
      simp only [itemBytes]
      omega
  have hback : g.next newfree = 0 ∧ g.ours (newfree + 4) = true := by
    constructor
    · rw [Pmalloc.next, hg.mem, if_neg (by omega), if_neg (by omega), if_pos rfl]
    · rw [hg.ours, if_pos (by simp)]
  obtain ⟨h', hins, hsp⟩ := itemInsert_spliced hl hs (by omega) (by simp)
    (fun _ _ => hback) hfuel
  exact ⟨h', hins, hsp.linked hl hs (by omega), hsp.update⟩

/-- A cut touches nothing but headers. -/
theorem CutState.headersOnly
    (hg : CutState h g c.addr newfree size rest)
    (hup : LinkUpdate .available (nodes .available u ++ [newfree]) g h') :
    HeadersOnly (u ++ [c.withSize size, Block.vacant newfree rest]) h h' := by
  intro a ha
  have hac := ha (c.withSize size) (by simp)
  have han := ha (Block.vacant newfree rest) (by simp)
  simp only [Block.withSize_addr, Block.vacant_addr] at hac han
  have hga : SameAt h g a := by
    constructor
    · rw [hg.mem, if_neg (by omega), if_neg (by omega), if_neg (by omega), if_neg (by omega)]
    · rw [hg.ours, if_neg (by omega)]
  refine hga.trans (hup.links a ?_)
  intro n hn
  rcases List.mem_append.1 hn with hn | hn
  · obtain ⟨b, hb, _, rfl⟩ := mem_nodes.1 hn
    have hab := ha b (by simp [hb])
    omega
  · obtain rfl : n = newfree := by simpa using hn
    omega

/-- No block starts above the last one. -/
theorem le_last (hL : Layout A h (u ++ [c])) {b : Block α} (hb : b ∈ u ++ [c]) :
    b.addr ≤ c.addr := by
  rcases List.mem_append.1 hb with hb | hb
  · have hlt := hL.left hb
    simp only [Block.stop] at hlt
    omega
  · rw [List.mem_singleton.1 hb]

/-- The headers of the blocks are apart from those of the free blocks and of the remainder. -/
theorem cut_apart
    (hL : Layout A h (u ++ [c])) {b : Block α} (hb : b ∈ u ++ [c]) {n : Nat}
    (hn : n ∈ nodes .available u ++ [c.addr + 16 + size]) :
    n = b.addr ∨ n + 16 ≤ b.addr ∨ b.addr + 16 ≤ n := by
  rcases List.mem_append.1 hn with hn | hn
  · have hn' : n ∈ nodes .available (u ++ [c]) := by
      rw [nodes_append]
      exact List.mem_append_left _ hn
    exact (hL.header_apart hb hn').imp_left And.left
  · have hle := le_last hL hb
    obtain rfl : n = c.addr + 16 + size := by simpa using hn
    omega

/-- The list of assigned blocks is as it was. -/
theorem CutState.assigned
    (hg : CutState h g c.addr (c.addr + 16 + size) size rest)
    (hL : Layout A h (u ++ [c])) (hr : c.root = .assigned)
    (hup : LinkUpdate .available (nodes .available u ++ [c.addr + 16 + size]) g h') :
    Linked h' .assigned (nodes .assigned (u ++ [c])) := by
  have hnf : c.addr + 16 ≤ c.addr + 16 + size := Nat.le_add_right _ _
  have hga : Linked g .assigned (nodes .assigned (u ++ [c])) := by
    refine (hL.linked .assigned).frame (hg.root _) ?_
    intro n hn
    obtain ⟨b, hb, _, rfl⟩ := mem_nodes.1 hn
    have hle := le_last hL hb
    exact ⟨hg.sameAt hL hr hnf (by omega), hg.sameAt hL hr hnf (by omega)⟩
  refine hga.frame_update hup (by decide) ?_
  intro n hn m hm
  rcases List.mem_append.1 hm with hm' | hm'
  · have hm'' : m ∈ nodes .available (u ++ [c]) := by
      rw [nodes_append]
      exact List.mem_append_left _ hm'
    exact hL.lists_apart (by decide) hn hm''
  · obtain ⟨b, hb, hbr, rfl⟩ := mem_nodes.1 hn
    have hle := le_last hL hb
    obtain rfl : m = c.addr + 16 + size := by simpa using hm'
    exact .inl (by omega)

/--
The headers after a cut.  Those below are as they were, the block has its new size, and
the remainder has what is left.
-/
theorem CutState.headers
    (hg : CutState h g c.addr (c.addr + 16 + size) size rest)
    (hL : Layout A h (u ++ [c])) (hr : c.root = .assigned)
    (hup : LinkUpdate .available (nodes .available u ++ [c.addr + 16 + size]) g h') :
    (∀ b ∈ u, h'.size b.addr = h.size b.addr ∧ h'.magic b.addr = h.magic b.addr) ∧
      h'.size c.addr = size ∧ h'.magic c.addr = h.magic c.addr ∧
      h'.size (c.addr + 16 + size) = rest := by
  have hnf : c.addr + 16 ≤ c.addr + 16 + size := Nat.le_add_right _ _
  have hbelow : ∀ b ∈ u, b.addr + 16 + b.size ≤ c.addr := fun b hb => hL.left hb
  have hcell : ∀ b ∈ u ++ [c], ∀ n ∈ nodes .available u ++ [c.addr + 16 + size],
      n = b.addr ∨ n + 16 ≤ b.addr ∨ b.addr + 16 ≤ n := fun b hb n hn => cut_apart hL hb hn
  have hkeep : ∀ b ∈ u ++ [c],
      SameAt g h' (b.addr + 8) ∧ SameAt g h' (b.addr + 12) := by
    intro b hb
    constructor
    · refine hup.links _ fun n hn => ?_
      have hbn := hcell b hb n hn
      omega
    · refine hup.links _ fun n hn => ?_
      have hbn := hcell b hb n hn
      omega
  have hremainder : SameAt g h' (c.addr + 16 + size + 8) := by
    refine hup.links _ fun n hn => ?_
    rcases List.mem_append.1 hn with hn | hn
    · obtain ⟨b, hb, _, rfl⟩ := mem_nodes.1 hn
      have hlt := hbelow b hb
      omega
    · obtain rfl : n = c.addr + 16 + size := by simpa using hn
      omega
  refine ⟨fun b hb => ⟨?_, ?_⟩, ?_, ?_, ?_⟩
  · have hlt := hbelow b hb
    rw [Pmalloc.size, (hkeep b (List.mem_append_left _ hb)).1.1,
      (hg.sameAt hL hr hnf (by omega)).1]
    rfl
  · have hlt := hbelow b hb
    rw [Pmalloc.magic, (hkeep b (List.mem_append_left _ hb)).2.1,
      (hg.sameAt hL hr hnf (by omega)).1]
    rfl
  · rw [Pmalloc.size, (hkeep c (by simp)).1.1, hg.mem, if_pos rfl]
  · rw [Pmalloc.magic, (hkeep c (by simp)).2.1, hg.mem, if_neg (by omega), if_neg (by omega),
      if_neg (by omega), if_neg (by omega)]
    rfl
  · rw [Pmalloc.size, hremainder.1, hg.mem, if_neg (by omega), if_neg (by omega),
      if_neg (by omega), if_pos rfl]

/-- The last block is cut in two, and its remainder is put on the list of free blocks. -/
theorem cut
    (hL : Layout A h (u ++ [c])) (hr : c.root = .assigned)
    (hsize : c.size = size + 16 + rest) (hsize4 : size % 4 = 0)
    (hfuel : 0x100000000 ≤ fuel) :
    ∃ h', pmallocItemInsert fuel .available
        (cutHeaders h c.addr (c.addr + 16 + size) size) (c.addr + 16 + size) = some h' ∧
      Layout A h'
        (u ++ [c.withSize size, Block.vacant (c.addr + 16 + size) rest]) ∧
      HeadersOnly (u ++ [c.withSize size, Block.vacant (c.addr + 16 + size) rest]) h h' := by
  have hbounds := hL.bounds (b := c) (by simp)
  have hg := cutState hL hr hsize
  have hnf : c.addr + 16 ≤ c.addr + 16 + size := Nat.le_add_right _ _
  obtain ⟨h', hins, hlinked, hup⟩ := hg.insert hL hr hnf (by omega : _ < fuel)
  obtain ⟨hbelow, hcsize, hcmagic, hrest⟩ := hg.headers hL hr hup
  refine ⟨h', hins, ?_, hg.headersOnly hup⟩
  constructor
  case tiles =>
    have ht := hL.tiles
    rw [List.map_append] at ht ⊢
    obtain ⟨x, hu, hx⟩ := tiles_append.1 ht
    refine tiles_append.2 ⟨x, hu, ?_⟩
    simp only [List.map_cons, List.map_nil, Tiles, Block.extent, Block.withSize,
      Block.vacant, Region.stop, itemBytes] at hx ⊢
    omega
  case words =>
    intro b hb
    simp only [List.mem_append, List.mem_cons, List.not_mem_nil, or_false] at hb
    have hc4 := hL.words c (by simp)
    rcases hb with hb | rfl | rfl
    · exact hL.words b (by simp [hb])
    · exact hsize4
    · simp only [Block.vacant_size]
      omega
  case sized =>
    intro b hb
    simp only [List.mem_append, List.mem_cons, List.not_mem_nil, or_false] at hb
    rcases hb with hb | rfl | rfl
    · exact (hbelow b hb).1.trans (hL.sized b (List.mem_append_left _ hb))
    · exact hcsize
    · exact hrest
  case linked =>
    intro r
    cases r with
    | available =>
        have hnodes : nodes .available
            (u ++ [c.withSize size, Block.vacant (c.addr + 16 + size) rest]) =
              nodes .available u ++ [c.addr + 16 + size] := by
          rw [nodes_append, nodes_cons_not (by simp [hr]), nodes_cons_of (Block.vacant_root _ _),
            nodes_nil]
          rfl
        rw [hnodes]
        exact hlinked
    | assigned =>
        have hnodes : nodes .assigned
            (u ++ [c.withSize size, Block.vacant (c.addr + 16 + size) rest]) =
              nodes .assigned (u ++ [c]) := by
          rw [nodes_append, nodes_append, nodes_cons_of (Block.withSize_root c size ▸ hr),
            nodes_cons_of hr, nodes_cons_not (by simp)]
          rfl
        rw [hnodes]
        exact hg.assigned hL hr hup
  case magic =>
    intro b hb hbr
    simp only [List.mem_append, List.mem_cons, List.not_mem_nil, or_false] at hb
    rcases hb with hb | rfl | rfl
    · exact (hbelow b hb).2.trans (hL.magic b (List.mem_append_left _ hb) hbr)
    · exact hcmagic.trans (hL.magic c (by simp) hr)
    · simp at hbr
  case calm =>
    rw [hup.wild, hg.wild, hL.calm]

end Cut

end Layout

end Heap
end Cubiboot
