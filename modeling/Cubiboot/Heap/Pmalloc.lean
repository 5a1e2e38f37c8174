import Cubiboot.Foundations.FuelLoop
import Cubiboot.Foundations.Words
import Mathlib.Logic.Function.Basic

/-!
# The heap allocator

`pmalloc` keeps its block headers in the memory it hands out.  A header is four
words: `prev`, `next`, `size` and `magic`; the user's memory follows it.  The
blocks are on two lists, `available` and `assigned`, in the order of their
addresses.

Memory is a map from the address of a word to its value.  Two marks that the
program does not have go with it: `ours` says which words the allocator wrote
last, and `wild` is set once a pointer is dereferenced that was loaded from any
other word.  `NULL` is `0`.

The loops are run with fuel: `none` is a call that has not returned yet.

Results: `steady_malloc`, `steady_free` and `steady_memalign`, that more fuel does not
change what a call that has returned gives.
-/

namespace Cubiboot
namespace Heap

open FuelLoop Words

/-- Which of the two lists. -/
inductive Root where
  | available
  | assigned
deriving DecidableEq, Repr

/-- `pmalloc_t`, with the memory it manages. -/
structure Pmalloc where
  mem : Nat → Nat
  /-- The words the allocator wrote last. -/
  ours : Nat → Bool
  /-- A pointer from a word that is not `ours` was dereferenced. -/
  wild : Bool
  available : Nat
  assigned : Nat
  freemem : Nat
  totalmem : Nat
  totalnodes : Nat

/-- `sizeof(pmalloc_item_t)`. -/
abbrev itemBytes : Nat := 16

namespace Pmalloc

/-- `node->prev`. -/
def prev (h : Pmalloc) (node : Nat) : Nat :=
  h.mem node

/-- `node->next`. -/
def next (h : Pmalloc) (node : Nat) : Nat :=
  h.mem (node + 4)

/-- `node->size`. -/
def size (h : Pmalloc) (node : Nat) : Nat :=
  h.mem (node + 8)

/-- `node->magic`. -/
def magic (h : Pmalloc) (node : Nat) : Nat :=
  h.mem (node + 12)

/-- A word is written by the allocator. -/
def store (h : Pmalloc) (a v : Nat) : Pmalloc :=
  { h with mem := Function.update h.mem a v, ours := Function.update h.ours a true }

/-- A word is written by a user. -/
def userStore (h : Pmalloc) (a v : Nat) : Pmalloc :=
  { h with mem := Function.update h.mem a v, ours := Function.update h.ours a false }

/-- The pointer kept at `a` is dereferenced. -/
def follow (h : Pmalloc) (a : Nat) : Pmalloc :=
  { h with wild := h.wild || !h.ours a }

def root (h : Pmalloc) : Root → Nat
  | .available => h.available
  | .assigned => h.assigned

def setRoot (h : Pmalloc) (r : Root) (v : Nat) : Pmalloc :=
  match r with
  | .available => { h with available := v }
  | .assigned => { h with assigned := v }

end Pmalloc

/-- The body of `pmalloc_item_insert`'s search for its place. -/
def placeBody (node : Nat) :
    Pmalloc × Nat → Option ((Pmalloc × Nat) ⊕ (Pmalloc × Nat))
  | (h, current) =>
    if h.next current ≠ 0 ∧ h.next current < node then
      some (.inl (h.follow (current + 4), h.next current))
    else
      some (.inr (h, current))

/-- The end of `pmalloc_item_insert`: at the end of the list `node->next` is not set. -/
def linkAfter (h : Pmalloc) (current node : Nat) : Pmalloc :=
  if h.next current = 0 then
    (h.store node current).store (current + 4) node
  else
    let oldnext := h.next current
    let h := (h.follow (current + 4)).store (current + 4) node
    ((h.store node current).store (node + 4) oldnext).store oldnext node

/-- `pmalloc_item_insert`: before the root `node->prev` is not set. -/
def pmallocItemInsert (fuel : Nat) (r : Root) (h : Pmalloc) (node : Nat) :
    Option Pmalloc :=
  if h.root r = 0 then
    some (((h.setRoot r node).store node 0).store (node + 4) 0)
  else if node < h.root r then
    some (((h.store (h.root r) node).store (node + 4) (h.root r)).setRoot r node)
  else
    (run (placeBody node) fuel (h, h.root r)).map fun at_ =>
      linkAfter at_.1 at_.2 node

/-- `node->prev->next = node->next`, if there is one. -/
def bypassPrev (h : Pmalloc) (node : Nat) : Pmalloc :=
  if h.prev node ≠ 0 then
    (h.follow node).store (h.prev node + 4) (h.next node)
  else
    h

/-- `node->next->prev = node->prev`, if there is one. -/
def bypassNext (h : Pmalloc) (node : Nat) : Pmalloc :=
  if h.next node ≠ 0 then
    (h.follow (node + 4)).store (h.next node) (h.prev node)
  else
    h

/-- The root of the list is moved off `node`. -/
def fixRoot (r : Root) (h : Pmalloc) (node : Nat) : Pmalloc :=
  if node = h.root r then
    h.setRoot r (if h.prev node ≠ 0 then h.prev node else h.next node)
  else
    h

/-- `pmalloc_item_remove`. -/
def pmallocItemRemove (r : Root) (h : Pmalloc) (node : Nat) : Pmalloc :=
  let h := bypassNext (bypassPrev h node) node
  ((fixRoot r h node).store (node + 4) 0).store node 0

/-- The body of `pmalloc_merge`'s scan backward. -/
def backwardBody :
    Pmalloc × Nat → Option ((Pmalloc × Nat) ⊕ (Pmalloc × Nat))
  | (h, node) =>
    let before := h.prev node
    if before = 0 then
      some (.inr (h, node))
    else if node = word (before + itemBytes + h.size before) then
      some (.inl (h.follow node, before))
    else
      some (.inr (h.follow node, node))

/-- The body of `pmalloc_merge`'s scan forward. -/
def forwardBody :
    Pmalloc × Nat → Option ((Pmalloc × Nat) ⊕ Pmalloc)
  | (h, node) =>
    let after := h.next node
    if after = word (node + itemBytes + h.size node) then
      let h := h.follow (node + 4)
      let nodesize := word (h.size after + itemBytes)
      let h := { h with freemem := word (h.freemem + itemBytes) }
      let h := pmallocItemRemove .available h after
      let h := { h with totalnodes := wordSub h.totalnodes 1 }
      some (.inl (h.store (node + 8) (word (h.size node + nodesize)), node))
    else
      some (.inr h)

/-- `pmalloc_merge`. -/
def pmallocMerge (fuel : Nat) (h : Pmalloc) (node : Nat) : Option Pmalloc :=
  (run backwardBody fuel (h, node)).bind fun at_ => run forwardBody fuel at_

/-- `(size + sizeof(uintptr_t) - 1) & ~(sizeof(uintptr_t) - 1)`. -/
def roundWord (size : Nat) : Nat :=
  andNot (word (size + 3)) 3

/-- The body of `pmalloc_malloc`'s search for a block. -/
def findBody (size : Nat) :
    Pmalloc × Nat → Option ((Pmalloc × Nat) ⊕ (Pmalloc × Nat))
  | (h, current) =>
    if current ≠ 0 ∧ h.size current < size then
      some (.inl
        (if h.next current ≠ 0 then h.follow (current + 4) else h, h.next current))
    else
      some (.inr (h, current))

/-- The headers of a block cut to `size` and of the remainder; `newfree->prev` is not set. -/
def cutHeaders (h : Pmalloc) (current newfree size : Nat) : Pmalloc :=
  let h := h.store (newfree + 8) (wordSub (wordSub (h.size current) itemBytes) size)
  let h := h.store (newfree + 4) (h.next current)
  (h.store (current + 4) 0).store (current + 8) size

/-- The remainder of a block larger than `size` becomes a free block. -/
def splitBlock (fuel : Nat) (h : Pmalloc) (current size : Nat) : Option Pmalloc :=
  let newfree := word (current + itemBytes + size)
  (pmallocItemInsert fuel .available (cutHeaders h current newfree size) newfree).bind
    fun h =>
      let h := { h with
        freemem := wordSub h.freemem itemBytes
        totalnodes := word (h.totalnodes + 1) }
      pmallocMerge fuel h newfree

/-- `pmalloc_malloc` once a block is found. -/
def takeBlock (fuel : Nat) (h : Pmalloc) (current size : Nat) : Option (Pmalloc × Nat) :=
  let h := h.store (current + 12) 0xFEEDFACE
  let h := pmallocItemRemove .available h current
  (pmallocItemInsert fuel .assigned h current).bind fun h =>
  (if h.size current ≠ size then splitBlock fuel h current size else some h).bind fun h =>
    some
      ({ h with freemem := wordSub h.freemem (h.size current) },
        word (current + itemBytes))

/-- `pmalloc_malloc`. -/
def pmallocMalloc (fuel : Nat) (h : Pmalloc) (size : Nat) : Option (Pmalloc × Nat) :=
  (run (findBody (roundWord size)) fuel (h, h.available)).bind fun found =>
    if found.2 = 0 then
      some (found.1, 0)
    else
      takeBlock fuel found.1 found.2 (roundWord size)

/-- `pmalloc_free`. -/
def pmallocFree (fuel : Nat) (h : Pmalloc) (ptr : Nat) : Option Pmalloc :=
  if ptr = 0 then
    some h
  else
    let node := wordSub ptr itemBytes
    let h := pmallocItemRemove .assigned h node
    let h := { h with freemem := word (h.freemem + h.size node) }
    (pmallocItemInsert fuel .available h node).bind fun h => pmallocMerge fuel h node

/-- `((uint32_t*)mem)[i] = 0xDEADBEEF` for the words below `count`. -/
def fillPadding (h : Pmalloc) (start : Nat) : Nat → Pmalloc
  | 0 => h
  | i + 1 => (fillPadding h start i).store (start + 4 * i) 0xDEADBEEF

/-- The address `pmalloc_memalign` returns for a block at `start`. -/
def alignAddress (start align : Nat) : Nat :=
  andNot (wordSub (word (start + align)) 1) (wordSub align 1)

/-- `pmalloc_memalign`. -/
def pmallocMemalign (fuel : Nat) (h : Pmalloc) (size align : Nat) :
    Option (Pmalloc × Nat) :=
  (pmallocMalloc fuel h (word (size + align))).bind fun got =>
    if got.2 = 0 then
      some (got.1, 0)
    else
      let memalignd := alignAddress got.2 align
      let offset := wordSub memalignd got.2
      some (fillPadding got.1 got.2 (offset / 4), memalignd)

/-- The body of `pmalloc_freealign`'s search for the magic word. -/
def magicBody (h : Pmalloc) (ptralignd : Nat) : Option (Nat ⊕ Nat) :=
  if h.mem (wordSub ptralignd 4) ≠ 0xFEEDFACE then
    some (.inl (wordSub ptralignd 4))
  else
    some (.inr ptralignd)

/-- The pointer that `pmalloc_freealign` frees for `ptr`. -/
def originalPointer (fuel : Nat) (h : Pmalloc) (ptr : Nat) : Option Nat :=
  run (magicBody h) fuel ptr

/-- `pmalloc_freealign`. -/
def pmallocFreealign (fuel : Nat) (h : Pmalloc) (ptr : Nat) : Option Pmalloc :=
  (originalPointer fuel h ptr).bind (pmallocFree fuel h)

/-- `pmalloc_init`. -/
def pmallocInit (h : Pmalloc) : Pmalloc :=
  { h with available := 0, assigned := 0, freemem := 0, totalmem := 0, totalnodes := 0 }

/-- `pmalloc_addblock`. -/
def pmallocAddblock (fuel : Nat) (h : Pmalloc) (ptr size : Nat) : Option Pmalloc :=
  let ptralignd := andNot (word (ptr + 3)) 3
  let size := wordSub size (wordSub ptralignd ptr)
  let h := h.store (ptralignd + 8) (wordSub size itemBytes)
  let h := { h with freemem := word (h.freemem + h.size ptralignd) }
  let h := { h with totalmem := word (h.totalmem + h.freemem) }
  (pmallocItemInsert fuel .available h ptralignd).map fun h =>
    { h with totalnodes := word (h.totalnodes + 1) }

/-- `gm_upng_alloc`. -/
def gmUpngAlloc (fuel : Nat) (h : Pmalloc) (size : Nat) : Option (Pmalloc × Nat) :=
  pmallocMalloc fuel h (word size)

/-- `gm_upng_free`. -/
def gmUpngFree (fuel : Nat) (h : Pmalloc) (ptr : Nat) : Option Pmalloc :=
  if ptr ≠ 0 then pmallocFree fuel h ptr else some h

/-- `gm_memalign`. -/
def gmMemalign (fuel : Nat) (h : Pmalloc) (size align : Nat) : Option (Pmalloc × Nat) :=
  pmallocMemalign fuel h size align

/-- `gm_freealign`. -/
def gmFreealign (fuel : Nat) (h : Pmalloc) (ptr : Nat) : Option Pmalloc :=
  if ptr ≠ 0 then pmallocFreealign fuel h ptr else some h

/-- `gm_malloc`. -/
def gmMalloc (fuel : Nat) (h : Pmalloc) (size : Nat) : Option (Pmalloc × Nat) :=
  pmallocMemalign fuel h size 32

/-- `gm_free`. -/
def gmFree (fuel : Nat) (h : Pmalloc) (ptr : Nat) : Option Pmalloc :=
  pmallocFreealign fuel h ptr

/-- `sizeof(gm_heap_buffer)`. -/
def heapBytes : Nat := 2 * 1024 * 1024

/-- The heap part of `gm_init_heap`. -/
def gmInitHeap (fuel : Nat) (h : Pmalloc) (buffer : Nat) : Option Pmalloc :=
  pmallocAddblock fuel (pmallocInit h) buffer heapBytes

section Steady

variable (h : Pmalloc) (node size align ptr : Nat) (r : Root)

theorem steady_itemInsert : Steady fun fuel => pmallocItemInsert fuel r h node := by
  simp only [pmallocItemInsert]
  refine (steady_const _).ite ((steady_const _).ite ?_)
  exact (steady_run _).map

theorem steady_merge : Steady fun fuel => pmallocMerge fuel h node :=
  (steady_run _).bind fun _ => steady_run _

theorem steady_splitBlock : Steady fun fuel => splitBlock fuel h node size :=
  (steady_itemInsert _ _ _).bind fun _ => steady_merge _ _

theorem steady_takeBlock : Steady fun fuel => takeBlock fuel h node size := by
  refine (steady_itemInsert _ _ _).bind fun h => Steady.bind ?_ fun _ => steady_const _
  exact (steady_splitBlock _ _ _).ite (steady_const _)

theorem steady_malloc : Steady fun fuel => pmallocMalloc fuel h size := by
  refine (steady_run _).bind fun found => ?_
  exact (steady_const _).ite (steady_takeBlock _ _ _)

theorem steady_free : Steady fun fuel => pmallocFree fuel h ptr := by
  refine (steady_const _).ite ?_
  exact (steady_itemInsert _ _ _).bind fun _ => steady_merge _ _

theorem steady_memalign : Steady fun fuel => pmallocMemalign fuel h size align := by
  refine (steady_malloc _ _).bind fun got => ?_
  exact (steady_const _).ite (steady_const _)

end Steady

end Heap
end Cubiboot
