import Cubiboot.Heap.Holdings

/-!
# Safety of the game heap

`HeapSafe` is what the users rely on in a state, and `CallSound` what they rely on
in a call.  Both hold along every run in which each request finds no block, or one
that fits it, or one with room for a further header above which nothing is held.

The other requests break the heap: a remainder smaller than a header gets a size
below zero, and a block cut below a held one takes the held block for its
neighbour, or goes to the front of the list with whatever stood in its `prev`.

Results: `HeapInv.step`, what one call or one write of a user preserves;
`HeapInv.returns`, that every call returns; and `gmHeap_sound`, the two for whole runs.
-/

namespace Cubiboot
namespace Heap

open FuelLoop LinkedSegment Regions Runs Words

/-- What holds of the heap in a state. -/
structure HeapSafe (B : HeapBuffer) (s : HeapState) : Prop where
  inside : ∀ a ∈ s.live, B.base ≤ a.ptr ∧ a.ptr + a.length ≤ B.base + heapBytes
  disjoint : s.live.Pairwise fun a b => a.region.Disjoint b.region
  headers : ∀ a ∈ s.live, ∀ r node, OnList s.heap r node →
    (⟨node, itemBytes⟩ : Region).Disjoint a.region
  listed : ∀ a ∈ s.live, OnList s.heap .assigned (a.mem - itemBytes)
  aligned : ∀ a ∈ s.live, ∀ k, a.align = some k → k ∣ a.ptr
  calm : s.heap.wild = false
  whole : s.live = [] →
    (∀ node, OnList s.heap .available node ↔ node = B.base) ∧
      s.heap.size B.base = heapBytes - itemBytes ∧
      ∀ node, ¬ OnList s.heap .assigned node

/-- The calls that allocate. -/
def HeapOp.Allocates : HeapOp → Prop
  | .upngAlloc _ => True
  | .memalign _ _ => True
  | .malloc _ => True
  | _ => False

/-- The calls that free the pointer `p`. -/
def HeapOp.Frees (p : Nat) : HeapOp → Prop
  | .upngFree q => q = p
  | .freealign q => q = p
  | .free q => q = p
  | _ => False

/-- What holds of a call: `NULL` changes nothing, and freeing releases one block. -/
structure CallSound (s : HeapState) (op : HeapOp) (s' : HeapState) : Prop where
  null : op.Allocates → s'.live = s.live → s' = s
  releases : ∀ a ∈ s.live, op.Frees a.ptr →
    s'.live = s.live.erase a ∧
      ∀ n, OnList s'.heap .assigned n ↔ OnList s.heap .assigned n ∧ n ≠ a.mem - itemBytes

variable {B : HeapBuffer} {A : Arena} {s s' : HeapState} {op : HeapOp}
variable {h h' : Pmalloc} {a b : Allocation} {bs : List (Block Allocation)}

/-- An empty allocator with the size of one block written. -/
structure FirstBlock (g : Pmalloc) (addr size : Nat) : Prop where
  roots : ∀ r, g.root r = 0
  size : g.size addr = size
  calm : g.wild = false

/-- The block is put on the empty list. -/
theorem FirstBlock.layout
    {g : Pmalloc} {fuel addr size : Nat}
    (hg : FirstBlock g addr size)
    (htiles : Tiles A.start [(Block.vacant addr size : Block Allocation).extent] A.stop)
    (hsize4 : size % 4 = 0) (hne : addr ≠ 0)
    (hins : pmallocItemInsert fuel .available g addr = some h) :
    Layout A h [(Block.vacant addr size : Block Allocation)] := by
  have hempty : ∀ r, Linked g r [] := by
    intro r
    refine ⟨?_, trivial, by simp⟩
    rw [hg.roots r]
    rfl
  rw [pmallocItemInsert, if_pos (hg.roots .available)] at hins
  have hh : ((g.setRoot .available addr).store addr 0).store (addr + 4) 0 = h :=
    Option.some.inj hins
  have hsp := spliced_alone (h := g) (r := .available) hne
  rw [hh] at hsp
  have hkeep : SameAt g h (addr + 8) := hsp.same _ (by omega) (by omega) (by simp) (by simp)
  constructor
  case tiles => exact htiles
  case words => simpa using hsize4
  case sized =>
    intro b hb
    obtain rfl : b = Block.vacant addr size := by simpa using hb
    exact hkeep.1.trans hg.size
  case linked =>
    intro r
    cases r with
    | available =>
        have hs : Spaced ([] ++ [addr]) := List.pairwise_singleton _ _
        exact hsp.linked (hempty .available) hs hne
    | assigned =>
        exact (hempty .assigned).frame_update hsp.update (by decide) (by simp)
  case magic =>
    intro b hb hr
    obtain rfl : b = Block.vacant addr size := by simpa using hb
    simp at hr
  case calm =>
    rw [hsp.wild, hg.calm]

theorem HeapStart.inv (hs : HeapStart B s) :
    HeapInv B.arena s [Block.vacant B.base (heapBytes - itemBytes)] := by
  obtain ⟨hlive, fuel, h, hcalm, hinit⟩ := hs
  have hbytes : heapBytes = 2097152 := rfl
  have habove := B.above
  have hbelow := B.below
  have haligned := B.aligned
  have hptr : andNot (word (B.base + 3)) 3 = B.base := by
    rw [word_of_lt (by omega)]
    have hdown := andNot_pred_pow (k := 2) (by decide) (by omega : B.base + 3 < 0x100000000)
    have hbase : (B.base + 3) / 2 ^ 2 * 2 ^ 2 = B.base := by omega
    exact hdown.trans hbase
  have hzero : wordSub B.base B.base = 0 := by
    rw [wordSub_of_le (Nat.le_refl _) (by omega), Nat.sub_self]
  have hsize : wordSub (wordSub heapBytes 0) itemBytes = heapBytes - itemBytes := by
    rw [hbytes]
    decide
  generalize hn : heapBytes - itemBytes = n at hsize ⊢
  have hn4 : n % 4 = 0 := by
    simp only [itemBytes] at hn
    omega
  have htiles : Tiles B.arena.start [(Block.vacant B.base n : Block Allocation).extent]
      B.arena.stop := by
    refine ⟨rfl, ?_⟩
    rw [Block.extent_stop]
    simp only [itemBytes] at hn
    simp only [Tiles, Block.stop, Block.vacant, HeapBuffer.arena]
    omega
  simp only [gmInitHeap, pmallocAddblock, hptr, hzero, hsize, Option.map_eq_some_iff] at hinit
  obtain ⟨h₁, hins, heq⟩ := hinit
  have hL : Layout B.arena h₁ [(Block.vacant B.base n : Block Allocation)] := by
    refine FirstBlock.layout ?_ htiles hn4 (by omega) hins
    refine ⟨?_, ?_, hcalm⟩
    · intro r
      cases r <;> rfl
    · simp only [Pmalloc.size, Pmalloc.store, Function.update_self]
  refine ⟨?_, List.isChain_singleton _, ?_, by simp [owned]⟩
  · rw [← heq]
    exact hL.alike (alike_counters h₁ _ _ _)
  · rw [hlive]
    exact List.Perm.nil

/-- The only block when nothing is held. -/
theorem HeapInv.single (hI : HeapInv A s bs) (hlive : s.live = []) (hlt : A.start < A.stop) :
    ∃ b, bs = [b] ∧ b.root = .available ∧ b.addr = A.start ∧ b.stop = A.stop := by
  have hfree : ∀ b ∈ bs, b.root = .available := by
    intro b hb
    cases hbr : b.root with
    | available => rfl
    | assigned =>
        obtain ⟨a, ha⟩ := owner_of_assigned hbr
        have hmem : a ∈ held bs :=
          List.mem_filterMap.2 ⟨b, mem_owned.2 ⟨hb, hbr⟩, ha⟩
        have hperm := hI.live
        rw [hlive] at hperm
        rw [List.nil_perm.1 hperm] at hmem
        cases hmem
  have htiles := hI.layout.tiles
  cases bs with
  | nil =>
      have heq : A.start = A.stop := htiles
      omega
  | cons b bs =>
      obtain rfl : bs = [] :=
        Layout.last_free (u := []) hI.apart (hfree b (by simp))
          (fun c hc => hfree c (List.mem_cons_of_mem b hc))
      obtain ⟨haddr, hstop⟩ := htiles
      refine ⟨b, rfl, hfree b (by simp), haddr, ?_⟩
      rw [← Block.extent_stop]
      exact hstop

theorem HeapInv.safe (hI : HeapInv B.arena s bs) : HeapSafe B s := by
  have hav := hI.layout.linked .available
  have has := hI.layout.linked .assigned
  constructor
  case inside =>
    intro a ha
    obtain ⟨u, b, v, rfl, _, _, hh⟩ := hI.block_of_live ha
    have hin := hI.layout.inside (b := b) (by simp)
    have hmem := hh.mem
    have habove := hh.above
    have hbelow := hh.below
    simp only [HeapBuffer.arena] at hin
    omega
  case disjoint =>
    have hord := List.pairwise_map.1 hI.layout.tiles.ordered
    have hheld : (held bs).Pairwise fun a b => a.region.Disjoint b.region := by
      refine List.pairwise_filterMap.2 ?_
      refine List.Pairwise.imp_of_mem ?_ (hord.sublist List.filter_sublist)
      intro b c hb hc hbc a ha d hd
      have hha := hI.holds b hb a ha
      have hhd := hI.holds c hc d hd
      have h₁ := hha.below
      have h₂ := hhd.above
      have h₃ := hhd.mem
      rw [Block.extent_stop, Block.extent_offset] at hbc
      simp only [Region.Disjoint, Region.stop, Allocation.region]
      omega
    refine (hI.live.pairwise_iff ?_).2 hheld
    intro a b hab
    exact hab.symm
  case headers =>
    intro a ha r node hnode
    obtain ⟨u, b, v, rfl, _, _, hh⟩ := hI.block_of_live ha
    have hnode' := (hI.layout.linked r).onList_iff.1 hnode
    obtain ⟨c, hc, _, rfl⟩ := mem_nodes.1 hnode'
    have hbc := hI.layout.apart (b := b) (by simp) hc
    have hmem := hh.mem
    have habove := hh.above
    have hbelow := hh.below
    simp only [Region.Disjoint, Region.stop, Allocation.region, itemBytes]
    simp only [Block.stop] at hbc hbelow
    rcases hbc with rfl | hbc | hbc <;> omega
  case listed =>
    intro a ha
    obtain ⟨u, b, v, rfl, _, hbr, hh⟩ := hI.block_of_live ha
    rw [hh.mem, Nat.add_sub_cancel]
    exact has.onList_iff.2 (mem_nodes.2 ⟨b, by simp, hbr, rfl⟩)
  case aligned =>
    intro a ha k hk
    obtain ⟨u, b, v, rfl, _, _, hh⟩ := hI.block_of_live ha
    exact Nat.dvd_of_mod_eq_zero (hh.aligned k hk)
  case calm => exact hI.layout.calm
  case whole =>
    intro hlive
    have hlt : B.arena.start < B.arena.stop := by
      simp only [HeapBuffer.arena, heapBytes]
      omega
    obtain ⟨b, rfl, hbr, haddr, hstop⟩ := hI.single hlive hlt
    have hsize := hI.layout.sized b (by simp)
    refine ⟨?_, ?_, ?_⟩
    · intro node
      rw [hav.onList_iff, nodes_cons_of hbr, nodes_nil, haddr]
      simp [HeapBuffer.arena]
    · simp only [HeapBuffer.arena, Block.stop] at haddr hstop
      rw [haddr] at hsize
      rw [hsize]
      simp only [itemBytes]
      omega
    · intro node hnode
      have hmem := has.onList_iff.1 hnode
      rw [nodes_cons_not (by rw [hbr]; decide)] at hmem
      cases hmem

/-- Allocations are told apart by their pointers. -/
theorem HeapInv.eq_of_ptr
    (hI : HeapInv A s bs) (ha : a ∈ s.live) (hb : b ∈ s.live) (hp : a.ptr = b.ptr) :
    a = b := by
  obtain ⟨u, c, v, rfl, hca, _, hha⟩ := hI.block_of_live ha
  obtain ⟨u', d, v', heq, hdb, _, hhb⟩ := hI.block_of_live hb
  have hd : d ∈ u ++ c :: v := by rw [heq]; simp
  have hcd := hI.layout.apart (b := c) (by simp) hd
  have ha₁ := hha.mem
  have ha₂ := hha.above
  have ha₃ := hha.below
  have hb₁ := hhb.mem
  have hb₂ := hhb.above
  have hb₃ := hhb.below
  rcases hcd with rfl | hcd
  · rw [hca] at hdb
    exact Option.some.inj hdb
  · simp only [Block.stop] at hcd ha₃ hb₃
    omega

theorem HeapInv.ptr_ne_zero (hI : HeapInv A s bs) (ha : a ∈ s.live) : a.ptr ≠ 0 := by
  obtain ⟨u, b, v, rfl, _, _, hh⟩ := hI.block_of_live ha
  have hmem := hh.mem
  have habove := hh.above
  omega

/-- How a call that allocates may end: with `NULL`, or with the allocation `a`. -/
def Outcome (A : Arena) (s : HeapState) (h : Pmalloc) (a : Allocation) : Prop :=
  (h = s.heap ∧ a.ptr = 0) ∨ (a.ptr ≠ 0 ∧ ∃ bs, HeapInv A (s.allocated h a) bs)

theorem HeapInv.upngAlloc_step
    {fuel size ptr : Nat}
    (hI : HeapInv A s bs) (hguard : heapGuard s (.upngAlloc size))
    (hcall : gmUpngAlloc fuel s.heap size = some (h, ptr)) :
    Outcome A s h ⟨ptr, size, none, ptr⟩ := by
  have hsteady := steady_malloc s.heap (word size)
  rcases hI.upngAlloc hguard.1 hguard.2 (Nat.le_refl 0x100000000) with
    hnull | ⟨h', ptr', bs', hcall', hne, hinv⟩
  · cases hsteady.unique hcall hnull
    exact .inl ⟨rfl, rfl⟩
  · cases hsteady.unique hcall hcall'
    exact .inr ⟨hne, bs', hinv⟩

theorem HeapInv.memalign_step
    {fuel size align ptr mem : Nat}
    (hI : HeapInv A s bs) (hguard : heapGuard s (.memalign size align))
    (hcall : pmallocMemalign fuel s.heap size align = some (h, ptr))
    (hmem : pmallocMalloc fuel s.heap (word (size + align)) = some (h', mem)) :
    Outcome A s h ⟨ptr, size, some align, mem⟩ := by
  obtain ⟨hpow, hsmall, hroomy⟩ := hguard
  have hsteady := steady_memalign s.heap size align
  have hsteady' := steady_malloc s.heap (word (size + align))
  rcases hI.memalign hpow hsmall hroomy (Nat.le_refl 0x100000000) with
    ⟨_, hnull⟩ | ⟨h₁, mem', h₂, ptr', bs', hmem', hcall', hne, hinv⟩
  · cases hsteady.unique hcall hnull
    exact .inl ⟨rfl, rfl⟩
  · cases hsteady.unique hcall hcall'
    cases hsteady'.unique hmem hmem'
    exact .inr ⟨hne, bs', hinv⟩

/-- The state after a call that allocates, and what `NULL` means. -/
theorem HeapInv.allocated
    (hI : HeapInv A s bs)
    (hcases : Outcome A s h a) :
    (∃ bs', HeapInv A (s.allocated h a) bs') ∧
      ((s.allocated h a).live = s.live → s.allocated h a = s) := by
  rcases hcases with ⟨rfl, hzero⟩ | ⟨hne, hinv⟩
  · have hsame : s.allocated s.heap a = s := by
      rw [HeapState.allocated, if_pos hzero]
    rw [hsame]
    exact ⟨⟨bs, hI⟩, fun _ => rfl⟩
  · refine ⟨hinv, fun hlive => ?_⟩
    simp only [HeapState.allocated, if_neg hne] at hlive
    exact absurd hlive (List.cons_ne_self a s.live)

/-- A call that frees what is held. -/
theorem HeapInv.free_step
    {fuel : Nat}
    (hI : HeapInv A s bs) (ha : a ∈ s.live)
    (hcall : pmallocFree fuel s.heap a.mem = some h) :
    (∃ bs', HeapInv A (s.freed h a) bs') ∧
      ∀ n, OnList h .assigned n ↔ OnList s.heap .assigned n ∧ n ≠ a.mem - itemBytes := by
  obtain ⟨h', bs', hcall', hinv, hlist⟩ := hI.free ha (Nat.le_refl 0x100000000)
  cases (steady_free s.heap a.mem).unique hcall hcall'
  exact ⟨⟨bs', hinv⟩, hlist⟩

theorem HeapInv.plain_ptr
    (hI : HeapInv A s bs) (ha : a ∈ s.live) (hplain : a.align = none) : a.ptr = a.mem := by
  obtain ⟨u, b, v, rfl, _, _, hh⟩ := hI.block_of_live ha
  exact hh.plain hplain

/-- `pmalloc_freealign` frees the pointer that was allocated. -/
theorem HeapInv.freealign_step
    {fuel : Nat}
    (hI : HeapInv A s bs) (ha : a ∈ s.live)
    (hcall : pmallocFreealign fuel s.heap a.ptr = some h) :
    ∃ fuel', pmallocFree fuel' s.heap a.mem = some h := by
  have hback := hI.original ha (Nat.le_refl 0x100000000)
  obtain ⟨p, hp, hfree⟩ := Option.bind_eq_some_iff.1 hcall
  have hp' : p = a.mem := (steady_run _).unique hp hback
  exact ⟨fuel, hp' ▸ hfree⟩

theorem HeapInv.step
    (hI : HeapInv A s bs) (hguard : heapGuard s op) (hstep : HeapStep s op s') :
    (∃ bs', HeapInv A s' bs') ∧ CallSound s op s' := by
  -- The allocation that a freeing call names is the one that was looked up.
  have hfreed : ∀ {h : Pmalloc} {a : Allocation}, a ∈ s.live → op.Frees a.ptr →
      (∀ b, op.Frees b → b = a.ptr) → ¬ op.Allocates →
      ((∃ bs', HeapInv A (s.freed h a) bs') ∧
        ∀ n, OnList h .assigned n ↔ OnList s.heap .assigned n ∧ n ≠ a.mem - itemBytes) →
      (∃ bs', HeapInv A (s.freed h a) bs') ∧ CallSound s op (s.freed h a) := by
    intro h a ha _ hptr hno ⟨hinv, hlist⟩
    refine ⟨hinv, fun hal => absurd hal hno, ?_⟩
    intro b hb hbf
    obtain rfl := hI.eq_of_ptr hb ha (hptr _ hbf)
    exact ⟨rfl, hlist⟩
  have hnull : ∀ {h : Pmalloc}, some s.heap = some h → ¬ op.Allocates →
      (∀ p, op.Frees p → 0 = p) →
      (∃ bs', HeapInv A ⟨h, s.live⟩ bs') ∧ CallSound s op ⟨h, s.live⟩ := by
    rintro h heq hno hzero
    cases heq
    refine ⟨⟨bs, hI⟩, fun hal => absurd hal hno, ?_⟩
    intro a ha haf
    exact absurd (hzero _ haf).symm (hI.ptr_ne_zero ha)
  cases hstep with
  | upngAlloc hcall =>
      obtain ⟨hinv, hnull⟩ := hI.allocated (hI.upngAlloc_step hguard hcall)
      exact ⟨hinv, fun _ => hnull, fun _ _ hf => hf.elim⟩
  | memalign hcall hmem =>
      obtain ⟨hinv, hnull⟩ := hI.allocated (hI.memalign_step hguard hcall hmem)
      exact ⟨hinv, fun _ => hnull, fun _ _ hf => hf.elim⟩
  | malloc hcall hmem =>
      have hguard' : heapGuard s (.memalign _ 32) := ⟨⟨5, rfl⟩, hguard⟩
      obtain ⟨hinv, hnull⟩ := hI.allocated (hI.memalign_step hguard' hcall hmem)
      exact ⟨hinv, fun _ => hnull, fun _ _ hf => hf.elim⟩
  | upngFree ha hplain hcall =>
      rw [gmUpngFree, if_pos (hI.ptr_ne_zero ha), hI.plain_ptr ha hplain] at hcall
      exact hfreed ha rfl (fun b hb => hb.symm) id (hI.free_step ha hcall)
  | upngFreeNull hcall =>
      exact hnull hcall id fun _ => id
  | freealign ha halign hcall =>
      rw [gmFreealign, if_pos (hI.ptr_ne_zero ha)] at hcall
      obtain ⟨_, hfree⟩ := hI.freealign_step ha hcall
      exact hfreed ha rfl (fun b hb => hb.symm) id (hI.free_step ha hfree)
  | freealignNull hcall =>
      exact hnull hcall id fun _ => id
  | free ha halign hcall =>
      obtain ⟨_, hfree⟩ := hI.freealign_step ha hcall
      exact hfreed ha rfl (fun b hb => hb.symm) id (hI.free_step ha hfree)
  | write ha hle hlt h4 =>
      exact ⟨⟨bs, hI.write ha hle hlt h4⟩, fun hal => hal.elim, fun _ _ hf => hf.elim⟩

/-- Every call that users may make, and whose request fits, returns. -/
theorem HeapInv.returns
    (hI : HeapInv A s bs) (hguard : heapGuard s op) (hlegal : Legal s op) :
    ∃ s', HeapStep s op s' := by
  have hfree : ∀ a ∈ s.live, ∃ h, pmallocFree 0x100000000 s.heap a.mem = some h := by
    intro a ha
    obtain ⟨h, _, hcall, _⟩ := hI.free ha (Nat.le_refl 0x100000000)
    exact ⟨h, hcall⟩
  have hfreealign : ∀ a ∈ s.live,
      ∃ h, pmallocFreealign 0x100000000 s.heap a.ptr = some h := by
    intro a ha
    obtain ⟨h, hcall⟩ := hfree a ha
    refine ⟨h, ?_⟩
    rw [pmallocFreealign, hI.original ha (Nat.le_refl 0x100000000)]
    exact hcall
  cases op with
  | upngAlloc size =>
      rcases hI.upngAlloc hguard.1 hguard.2 (Nat.le_refl 0x100000000) with
        hnull | ⟨h', ptr, _, hcall, _⟩
      · exact ⟨_, .upngAlloc hnull⟩
      · exact ⟨_, .upngAlloc hcall⟩
  | memalign size align =>
      obtain ⟨hpow, hsmall, hroomy⟩ := hguard
      rcases hI.memalign hpow hsmall hroomy (Nat.le_refl 0x100000000) with
        ⟨hmem, hnull⟩ | ⟨_, _, _, _, _, hmem, hcall, _⟩
      · exact ⟨_, .memalign hnull hmem⟩
      · exact ⟨_, .memalign hcall hmem⟩
  | malloc size =>
      obtain ⟨hsmall, hroomy⟩ := hguard
      have hpow : ∃ k, 32 = 2 ^ k := ⟨5, rfl⟩
      rcases hI.memalign hpow hsmall hroomy (Nat.le_refl 0x100000000) with
        ⟨hmem, hnull⟩ | ⟨_, _, _, _, _, hmem, hcall, _⟩
      · exact ⟨_, .malloc hnull hmem⟩
      · exact ⟨_, .malloc hcall hmem⟩
  | upngFree p =>
      rcases hlegal with rfl | ⟨a, ha, halign, rfl⟩
      · have hcall : gmUpngFree 0 s.heap 0 = some s.heap := rfl
        exact ⟨_, .upngFreeNull hcall⟩
      · obtain ⟨h, hcall⟩ := hfree a ha
        have hcall' : gmUpngFree 0x100000000 s.heap a.ptr = some h := by
          rw [gmUpngFree, if_pos (hI.ptr_ne_zero ha), hI.plain_ptr ha halign]
          exact hcall
        exact ⟨_, .upngFree ha halign hcall'⟩
  | freealign p =>
      rcases hlegal with rfl | ⟨a, ha, halign, rfl⟩
      · have hcall : gmFreealign 0 s.heap 0 = some s.heap := rfl
        exact ⟨_, .freealignNull hcall⟩
      · obtain ⟨h, hcall⟩ := hfreealign a ha
        have hcall' : gmFreealign 0x100000000 s.heap a.ptr = some h := by
          rw [gmFreealign, if_pos (hI.ptr_ne_zero ha)]
          exact hcall
        exact ⟨_, .freealign ha halign hcall'⟩
  | free p =>
      obtain ⟨a, ha, halign, rfl⟩ := hlegal
      obtain ⟨h, hcall⟩ := hfreealign a ha
      exact ⟨_, .free ha halign hcall⟩
  | write w v =>
      obtain ⟨h4, a, ha, hle, hlt⟩ := hlegal
      exact ⟨_, .write ha hle hlt h4⟩

/-- A run whose requests fit keeps the heap safe, and each of its calls is sound and
returns. -/
theorem gmHeap_sound
    (hs : Reachable (HeapStart B) (Guarded HeapStep heapGuard) s) :
    HeapSafe B s ∧ ∀ op, heapGuard s op →
      (Legal s op → ∃ s', HeapStep s op s') ∧
        ∀ s', HeapStep s op s' → CallSound s op s' := by
  have hstart : ∀ s, HeapStart B s → ∃ bs, HeapInv B.arena s bs :=
    fun s hs => ⟨_, hs.inv⟩
  have hstep : ∀ s s', (∃ bs, HeapInv B.arena s bs) → Guarded HeapStep heapGuard s s' →
      ∃ bs, HeapInv B.arena s' bs := by
    rintro s s' ⟨bs, hI⟩ ⟨op, hguard, hstep⟩
    exact (hI.step hguard hstep).1
  obtain ⟨bs, hI⟩ := hs.invariant hstart hstep
  refine ⟨hI.safe, fun op hguard => ⟨hI.returns hguard, fun s' hstep => ?_⟩⟩
  exact (hI.step hguard hstep).2

/-- A buffer in low memory. -/
def lowBuffer : HeapBuffer where
  base := 0x80200000
  above := by decide
  below := by decide
  aligned := by decide

/-- Memory before `gm_init_heap`. -/
def blankHeap : Pmalloc where
  mem := fun _ => 0
  ours := fun _ => false
  wild := false
  available := 0
  assigned := 0
  freemem := 0
  totalmem := 0
  totalnodes := 0

/-- The calls `ops` after `gm_init_heap`. -/
def heapRun (ops : List HeapOp) : Option HeapState :=
  (gmInitHeap 1 blankHeap lowBuffer.base).bind fun h =>
    ops.foldlM (HeapState.exec 1000) ⟨h, []⟩

theorem heapRun_snoc (ops : List HeapOp) (op : HeapOp) :
    heapRun (ops ++ [op]) = (heapRun ops).bind fun s => s.exec 1000 op := by
  simp [heapRun, List.foldlM_append, Option.bind_assoc]

/-- A heap of which nothing is held has room for what leaves a header free. -/
theorem HeapSafe.roomy {B : HeapBuffer} {s : HeapState} (h : HeapSafe B s) (hlive : s.live = [])
    {size : Nat} (hsize : size + 2 * itemBytes ≤ heapBytes) : Roomy s.heap size := by
  obtain ⟨hfree, hwhole, hnone⟩ := h.whole hlive
  rintro node ⟨hnode, _, _⟩
  obtain rfl := (hfree node).1 hnode
  refine .inr ⟨?_, fun m hm => absurd hm (hnone m)⟩
  rw [hwhole]
  omega

/-- An aligned allocation from the fresh heap, its free, and another allocation. -/
theorem gmHeap_sound_reused :
    ∃ s, heapRun [.memalign 100 32, .freealign 0x80200020, .upngAlloc 64] = some s ∧
      s.live = [⟨0x80200010, 64, none, 0x80200010⟩] ∧ HeapSafe lowBuffer s := by
  have hlive : (heapRun [.memalign 100 32, .freealign 0x80200020, .upngAlloc 64]).map
      (fun s => s.live) = some [⟨0x80200010, 64, none, 0x80200010⟩] := by
    decide +kernel
  have hfreed : (heapRun [.memalign 100 32, .freealign 0x80200020]).map (fun s => s.live) =
      some [] := by
    decide +kernel
  obtain ⟨s, hrun, hs⟩ := Option.map_eq_some_iff.1 hlive
  obtain ⟨s₂, hrun₂, hs₂⟩ := Option.map_eq_some_iff.1 hfreed
  obtain ⟨s₁, hrun₁, hexec₂⟩ := Option.bind_eq_some_iff.1
    ((heapRun_snoc [.memalign 100 32] _).symm.trans hrun₂)
  obtain ⟨s₀, hrun₀, hexec₁⟩ := Option.bind_eq_some_iff.1 ((heapRun_snoc [] _).symm.trans hrun₁)
  obtain ⟨h, hinit, hnil⟩ := Option.bind_eq_some_iff.1 hrun₀
  cases hnil
  have hexec : s₂.exec 1000 (.upngAlloc 64) = some s := by
    have hlast := heapRun_snoc [.memalign 100 32, .freealign 0x80200020] (.upngAlloc 64)
    rw [hrun₂] at hlast
    exact hlast.symm.trans hrun
  have hstart : HeapStart lowBuffer ⟨h, []⟩ := ⟨rfl, 1, blankHeap, rfl, hinit⟩
  have hguard₁ : heapGuard ⟨h, []⟩ (.memalign 100 32) :=
    ⟨⟨5, rfl⟩, by decide, hstart.inv.safe.roomy rfl (by decide)⟩
  have hreached : Reachable (HeapStart lowBuffer) (Guarded HeapStep heapGuard) s₂ :=
    .step (.step (.start hstart) ⟨_, hguard₁, exec_step hexec₁⟩)
      ⟨.freealign 0x80200020, trivial, exec_step hexec₂⟩
  have hguard : heapGuard s₂ (.upngAlloc 64) :=
    ⟨by decide, (gmHeap_sound hreached).1.roomy hs₂ (by decide)⟩
  exact ⟨s, hrun, hs, (gmHeap_sound (.step hreached ⟨_, hguard, exec_step hexec⟩)).1⟩

/-- Two blocks; a word is written into the first; it is freed, and a smaller one is
cut from it.  The remainder goes to the front of the list with that word as `prev`. -/
theorem gmHeap_unsafe :
    ¬ ∀ B s, Reachable (HeapStart B) (anyStep HeapStep) s → HeapSafe B s := by
  intro hall
  have hwild : (heapRun [.upngAlloc 64, .upngAlloc 64, .write 0x80200030 0x80100000,
      .upngFree 0x80200010, .upngAlloc 32]).map (fun s => s.heap.wild) = some true := by
    decide +kernel
  obtain ⟨s, hrun, hs⟩ := Option.map_eq_some_iff.1 hwild
  obtain ⟨h, hinit, hops⟩ := Option.bind_eq_some_iff.1 hrun
  have hstart : HeapStart lowBuffer ⟨h, []⟩ := ⟨rfl, 1, blankHeap, rfl, hinit⟩
  have hsafe := hall lowBuffer s (execs_reachable (.start hstart) hops)
  rw [hsafe.calm] at hs
  cases hs

end Heap
end Cubiboot
