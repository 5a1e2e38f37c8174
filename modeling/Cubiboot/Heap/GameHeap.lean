import Cubiboot.Foundations.Runs
import Cubiboot.Heap.Aligned

/-!
# The game heap

The state of a run is the allocator with its memory and the allocations its users
hold.  Users allocate, free what they hold, and write what they like into it, a
word at a time.

`HeapInv` is the invariant of the runs in which every request fits: its blocks
tile the buffer, and each allocation that is held lies in a block of its own.

Results: `Linked.onList_iff`, that a walk along a list of the allocator comes to the
nodes it holds; `exec_step` and `execs_reachable`, that what is computed with fuel is a
run of the step relation, so that a run can be evaluated. The start is the allocator
over a buffer of any contents, after `pmalloc_init` and the one block that
`gm_init_heap` adds.
-/

namespace Cubiboot
namespace Heap

open FuelLoop LinkedSegment Regions Runs Words

/-- What a user holds: the pointer it was given, the length it asked for, the
alignment if it asked for one, and the pointer `pmalloc_malloc` returned. -/
structure Allocation where
  ptr : Nat
  length : Nat
  align : Option Nat
  mem : Nat
deriving DecidableEq, Repr

/-- The memory an allocation may use. -/
def Allocation.region (a : Allocation) : Region :=
  ⟨a.ptr, a.length⟩

structure HeapState where
  heap : Pmalloc
  live : List Allocation

/-- What a user may do. -/
inductive HeapOp where
  | upngAlloc (size : Nat)
  | memalign (size align : Nat)
  | malloc (size : Nat)
  | upngFree (ptr : Nat)
  | freealign (ptr : Nat)
  | free (ptr : Nat)
  | write (a v : Nat)
deriving DecidableEq, Repr

/-- The allocations of the state after a call that returned. -/
def HeapState.allocated (s : HeapState) (h : Pmalloc) (a : Allocation) : HeapState :=
  ⟨h, if a.ptr = 0 then s.live else a :: s.live⟩

/-- The state after an allocation was freed. -/
def HeapState.freed (s : HeapState) (h : Pmalloc) (a : Allocation) : HeapState :=
  ⟨h, s.live.erase a⟩

/-- One step of a user. -/
inductive HeapStep (s : HeapState) : HeapOp → HeapState → Prop where
  | upngAlloc {fuel size ptr : Nat} {h : Pmalloc}
      (hcall : gmUpngAlloc fuel s.heap size = some (h, ptr)) :
      HeapStep s (.upngAlloc size) (s.allocated h ⟨ptr, size, none, ptr⟩)
  | memalign {fuel size align ptr mem : Nat} {h h' : Pmalloc}
      (hcall : gmMemalign fuel s.heap size align = some (h, ptr))
      (hmem : pmallocMalloc fuel s.heap (word (size + align)) = some (h', mem)) :
      HeapStep s (.memalign size align) (s.allocated h ⟨ptr, size, some align, mem⟩)
  | malloc {fuel size ptr mem : Nat} {h h' : Pmalloc}
      (hcall : gmMalloc fuel s.heap size = some (h, ptr))
      (hmem : pmallocMalloc fuel s.heap (word (size + 32)) = some (h', mem)) :
      HeapStep s (.malloc size) (s.allocated h ⟨ptr, size, some 32, mem⟩)
  | upngFree {fuel : Nat} {h : Pmalloc} {a : Allocation}
      (ha : a ∈ s.live) (halign : a.align = none)
      (hcall : gmUpngFree fuel s.heap a.ptr = some h) :
      HeapStep s (.upngFree a.ptr) (s.freed h a)
  | upngFreeNull {fuel : Nat} {h : Pmalloc}
      (hcall : gmUpngFree fuel s.heap 0 = some h) :
      HeapStep s (.upngFree 0) ⟨h, s.live⟩
  | freealign {fuel : Nat} {h : Pmalloc} {a : Allocation}
      (ha : a ∈ s.live) (halign : a.align ≠ none)
      (hcall : gmFreealign fuel s.heap a.ptr = some h) :
      HeapStep s (.freealign a.ptr) (s.freed h a)
  | freealignNull {fuel : Nat} {h : Pmalloc}
      (hcall : gmFreealign fuel s.heap 0 = some h) :
      HeapStep s (.freealign 0) ⟨h, s.live⟩
  | free {fuel : Nat} {h : Pmalloc} {a : Allocation}
      (ha : a ∈ s.live) (halign : a.align ≠ none)
      (hcall : gmFree fuel s.heap a.ptr = some h) :
      HeapStep s (.free a.ptr) (s.freed h a)
  | write {w v : Nat} {a : Allocation}
      (ha : a ∈ s.live) (hle : a.ptr ≤ w) (hlt : w < a.ptr + a.length) (h4 : w % 4 = 0) :
      HeapStep s (.write w v) ⟨s.heap.userStore w v, s.live⟩

/-- The step, computed: a pointer that is freed is looked up among the allocations. -/
def HeapState.exec (fuel : Nat) (s : HeapState) : HeapOp → Option HeapState
  | .upngAlloc size =>
      (gmUpngAlloc fuel s.heap size).map fun got =>
        s.allocated got.1 ⟨got.2, size, none, got.2⟩
  | .memalign size align =>
      (gmMemalign fuel s.heap size align).bind fun got =>
        (pmallocMalloc fuel s.heap (word (size + align))).map fun block =>
          s.allocated got.1 ⟨got.2, size, some align, block.2⟩
  | .malloc size =>
      (gmMalloc fuel s.heap size).bind fun got =>
        (pmallocMalloc fuel s.heap (word (size + 32))).map fun block =>
          s.allocated got.1 ⟨got.2, size, some 32, block.2⟩
  | .upngFree p =>
      (s.live.find? fun a => a.align = none ∧ a.ptr = p).bind fun a =>
        (gmUpngFree fuel s.heap p).map fun h => s.freed h a
  | .freealign p =>
      (s.live.find? fun a => a.align ≠ none ∧ a.ptr = p).bind fun a =>
        (gmFreealign fuel s.heap p).map fun h => s.freed h a
  | .free p =>
      (s.live.find? fun a => a.align ≠ none ∧ a.ptr = p).bind fun a =>
        (gmFree fuel s.heap p).map fun h => s.freed h a
  | .write w v =>
      (s.live.find? fun a => a.ptr ≤ w ∧ w < a.ptr + a.length).bind fun _ =>
        if w % 4 = 0 then some ⟨s.heap.userStore w v, s.live⟩ else none

/-- The calls users make: they free what they hold, or `NULL`. -/
def Legal (s : HeapState) : HeapOp → Prop
  | .upngAlloc _ => True
  | .memalign _ _ => True
  | .malloc _ => True
  | .upngFree p => p = 0 ∨ ∃ a ∈ s.live, a.align = none ∧ a.ptr = p
  | .freealign p => p = 0 ∨ ∃ a ∈ s.live, a.align ≠ none ∧ a.ptr = p
  | .free p => ∃ a ∈ s.live, a.align ≠ none ∧ a.ptr = p
  | .write w _ => w % 4 = 0 ∧ ∃ a ∈ s.live, a.ptr ≤ w ∧ w < a.ptr + a.length

/-- `node` is on the list: a walk along `next` comes to it. -/
inductive OnList (h : Pmalloc) (r : Root) : Nat → Prop where
  | root (hne : h.root r ≠ 0) : OnList h r (h.root r)
  | next {node : Nat} (hnode : OnList h r node) (hne : h.next node ≠ 0) :
      OnList h r (h.next node)

/-- The first block on the list of free blocks that is large enough. -/
def FirstFit (h : Pmalloc) (size node : Nat) : Prop :=
  OnList h .available node ∧ size ≤ h.size node ∧
    ∀ m, OnList h .available m → m < node → h.size m < size

/-- The block a request finds, if any, fits, or it has room for a further header
and no block above it is held. -/
def Roomy (h : Pmalloc) (size : Nat) : Prop :=
  ∀ node, FirstFit h size node →
    h.size node = size ∨
      (size + itemBytes ≤ h.size node ∧ ∀ m, OnList h .assigned m → m < node)

/-- The condition on a call in a given state. -/
def heapGuard (s : HeapState) : HeapOp → Prop
  | .upngAlloc size => size + 3 < 0x100000000 ∧ Roomy s.heap (roundWord size)
  | .memalign size align =>
      (∃ k, align = 2 ^ k) ∧ size + align + 3 < 0x100000000 ∧
        Roomy s.heap (roundWord (size + align))
  | .malloc size =>
      size + 32 + 3 < 0x100000000 ∧ Roomy s.heap (roundWord (size + 32))
  | _ => True

/-- Where the linker puts `gm_heap_buffer`: in low memory, aligned to 32 bytes. -/
structure HeapBuffer where
  base : Nat
  above : 0x80100000 ≤ base
  below : base + heapBytes ≤ 0x80500000
  aligned : base % 32 = 0

/-- The addresses of the buffer. -/
def HeapBuffer.arena (B : HeapBuffer) : Arena where
  start := B.base
  stop := B.base + heapBytes
  pos := by
    have h := B.above
    omega
  bounded := by
    have h := B.below
    omega
  aligned := by
    have h := B.aligned
    omega

/-- After `gm_init_heap`, whatever the memory held before. -/
def HeapStart (B : HeapBuffer) (s : HeapState) : Prop :=
  s.live = [] ∧
    ∃ fuel h, h.wild = false ∧ gmInitHeap fuel h B.base = some s.heap

theorem exec_step
    {fuel : Nat} {s s' : HeapState} {op : HeapOp} (h : s.exec fuel op = some s') :
    HeapStep s op s' := by
  cases op with
  | upngAlloc size =>
      obtain ⟨got, hgot, rfl⟩ := Option.map_eq_some_iff.1 h
      exact .upngAlloc hgot
  | memalign size align =>
      obtain ⟨got, hgot, h⟩ := Option.bind_eq_some_iff.1 h
      obtain ⟨block, hblock, rfl⟩ := Option.map_eq_some_iff.1 h
      exact .memalign hgot hblock
  | malloc size =>
      obtain ⟨got, hgot, h⟩ := Option.bind_eq_some_iff.1 h
      obtain ⟨block, hblock, rfl⟩ := Option.map_eq_some_iff.1 h
      exact .malloc hgot hblock
  | upngFree p =>
      obtain ⟨a, ha, h⟩ := Option.bind_eq_some_iff.1 h
      obtain ⟨h', hcall, rfl⟩ := Option.map_eq_some_iff.1 h
      have hprop := List.find?_some ha
      simp only [decide_eq_true_eq] at hprop
      obtain ⟨halign, rfl⟩ := hprop
      exact .upngFree (List.mem_of_find?_eq_some ha) halign hcall
  | freealign p =>
      obtain ⟨a, ha, h⟩ := Option.bind_eq_some_iff.1 h
      obtain ⟨h', hcall, rfl⟩ := Option.map_eq_some_iff.1 h
      have hprop := List.find?_some ha
      simp only [decide_eq_true_eq] at hprop
      obtain ⟨halign, rfl⟩ := hprop
      exact .freealign (List.mem_of_find?_eq_some ha) halign hcall
  | free p =>
      obtain ⟨a, ha, h⟩ := Option.bind_eq_some_iff.1 h
      obtain ⟨h', hcall, rfl⟩ := Option.map_eq_some_iff.1 h
      have hprop := List.find?_some ha
      simp only [decide_eq_true_eq] at hprop
      obtain ⟨halign, rfl⟩ := hprop
      exact .free (List.mem_of_find?_eq_some ha) halign hcall
  | write w v =>
      obtain ⟨a, ha, h⟩ := Option.bind_eq_some_iff.1 h
      have hprop := List.find?_some ha
      simp only [decide_eq_true_eq] at hprop
      by_cases h4 : w % 4 = 0
      · rw [if_pos h4] at h
        cases h
        exact .write (List.mem_of_find?_eq_some ha) hprop.1 hprop.2 h4
      · rw [if_neg h4] at h
        cases h

/-- A computed run is a run. -/
theorem execs_reachable
    {initial : HeapState → Prop} {fuel : Nat} {ops : List HeapOp} {s s' : HeapState}
    (hs : Reachable initial (anyStep HeapStep) s)
    (h : ops.foldlM (HeapState.exec fuel) s = some s') :
    Reachable initial (anyStep HeapStep) s' := by
  induction ops generalizing s with
  | nil =>
      cases h
      exact hs
  | cons op ops ih =>
      rw [List.foldlM_cons] at h
      obtain ⟨t, ht, h⟩ := Option.bind_eq_some_iff.1 h
      exact ih (hs.step ⟨op, exec_step ht⟩) h

section OnList

variable {h : Pmalloc} {r : Root} {l : List Nat} {n : Nat}

theorem Linked.onList_of_mem
    (hl : Linked h r l) (hn : n ∈ l) : OnList h r n := by
  obtain ⟨u, v, rfl⟩ := List.append_of_mem hn
  clear hn
  induction u using List.reverseRecOn generalizing n v with
  | nil =>
      obtain ⟨hroot, hne⟩ := link_eq_some.1 hl.root
      rw [← hroot] at hne ⊢
      exact .root hne
  | append_singleton u m ih =>
      have hl' : Linked h r (u ++ m :: n :: v) := by simpa using hl
      obtain ⟨hnext, hne⟩ := link_eq_some.1 hl'.fields.2
      rw [← hnext] at hne ⊢
      exact .next (ih (n :: v) hl') hne

/-- A walk along a list comes to its nodes. -/
theorem Linked.onList_iff
    (hl : Linked h r l) : OnList h r n ↔ n ∈ l := by
  constructor
  · intro hn
    induction hn with
    | root hne => exact hl.root_mem hne
    | next _ hne ih =>
        obtain ⟨u, v, rfl⟩ := List.append_of_mem ih
        have hnext := hl.fields.2
        rw [link_of_ne hne] at hnext
        have hmem := List.mem_of_head? hnext.symm
        simp [hmem]
  · exact hl.onList_of_mem

end OnList

end Heap
end Cubiboot
