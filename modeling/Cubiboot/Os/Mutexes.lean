import Mathlib.Logic.Function.Basic
import Cubiboot.Foundations.LinkedSegment

/-!
# The mutexes of a thread

`OSLockMutex`, `OSTryLockMutex`, `OSUnlockMutex` and `__OSUnlockAllMutex` of
`dolphin_os.c`, for any threads and any mutexes. Each thread has a queue of the mutexes
that it owns, which is linked through the mutexes; the priorities of the threads are
left out.

A mutex is known by its place in memory, and its fields are functions of it: the owner,
how often it is locked, the threads that sleep for it, and its links.

Results: `Queued.pushTail` and `Queued.popItem`, the two changes of a queue, each with
what it leaves of the queue of another thread; `Queued.popHead_eq`, that the first mutex
is taken off as any other; and `Queued.fields`, the neighbours of a mutex.
-/

namespace Cubiboot
namespace Os

open LinkedSegment

universe u v

variable {ι : Type u} {μ : Type v}

/-- The fields of every `OSMutex` and the `owned_mutexes` of every `OSThread`. -/
structure MutexTable (ι : Type u) (μ : Type v) where
  thread : μ → Option ι
  count : μ → Int
  next : μ → Option μ
  prev : μ → Option μ
  queue : μ → List ι
  head : ι → Option μ
  tail : ι → Option μ

/-- The mutexes `l` are linked in the queue of `t`, in this order. -/
structure Queued (s : MutexTable ι μ) (t : ι) (l : List μ) : Prop where
  nodup : l.Nodup
  head : s.head t = l.head?
  tail : s.tail t = l.getLast?
  links : Segment s.next s.prev none l none

variable {s s' : MutexTable ι μ} {t u : ι} {m : μ} {l r : List μ}

/-- A queue depends on its own pointers only. -/
theorem Queued.congr (h : Queued s t l) (hhead : s'.head t = s.head t)
    (htail : s'.tail t = s.tail t) (hnext : ∀ x ∈ l, s'.next x = s.next x)
    (hprev : ∀ x ∈ l, s'.prev x = s.prev x) : Queued s' t l where
  nodup := h.nodup
  head := hhead.trans h.head
  tail := htail.trans h.tail
  links := h.links.congr hnext hprev

/-- The neighbours of a mutex in its queue. -/
theorem Queued.fields (h : Queued s t (l ++ m :: r)) :
    s.prev m = l.getLast? ∧ s.next m = r.head? := by
  obtain ⟨hprev, hnext⟩ := h.links.fields
  rw [Option.or_none] at hprev hnext
  exact ⟨hprev, hnext⟩

variable [DecidableEq ι] [DecidableEq μ]

/-- The pointer that follows `q` in the queue of `t`: its `next`, or the `head`. -/
def MutexTable.setForward (s : MutexTable ι μ) (t : ι) (q dest : Option μ) : MutexTable ι μ :=
  match q with
  | none => { s with head := Function.update s.head t dest }
  | some q => { s with next := Function.update s.next q dest }

/-- The pointer that precedes `q` in the queue of `t`: its `prev`, or the `tail`. -/
def MutexTable.setBackward (s : MutexTable ι μ) (t : ι) (q dest : Option μ) : MutexTable ι μ :=
  match q with
  | none => { s with tail := Function.update s.tail t dest }
  | some q => { s with prev := Function.update s.prev q dest }

/-- `PushTail`. -/
def MutexTable.pushTail (s : MutexTable ι μ) (t : ι) (m : μ) : MutexTable ι μ :=
  let s' := s.setForward t (s.tail t) (some m)
  { s' with
    prev := Function.update s'.prev m (s.tail t)
    next := Function.update s'.next m none
    tail := Function.update s'.tail t (some m) }

/-- `PopItem`. -/
def MutexTable.popItem (s : MutexTable ι μ) (t : ι) (m : μ) : MutexTable ι μ :=
  (s.setBackward t (s.next m) (s.prev m)).setForward t (s.prev m) (s.next m)

/-- `PopHead`, of a queue that starts with `m`. -/
def MutexTable.popHead (s : MutexTable ι μ) (t : ι) (m : μ) : MutexTable ι μ :=
  let s' := s.setBackward t (s.next m) none
  { s' with head := Function.update s'.head t (s.next m) }

section Fields

variable (s : MutexTable ι μ) (t u : ι) (q dest : Option μ) (x : μ)

@[simp] theorem setForward_head :
    (s.setForward t q dest).head u = if q = none ∧ u = t then dest else s.head u := by
  cases q <;> simp [MutexTable.setForward, Function.update_apply]

@[simp] theorem setForward_next :
    (s.setForward t q dest).next x = if q = some x then dest else s.next x := by
  cases q <;> simp [MutexTable.setForward, Function.update_apply, eq_comm]

@[simp] theorem setForward_prev : (s.setForward t q dest).prev = s.prev := by
  cases q <;> rfl

@[simp] theorem setForward_tail : (s.setForward t q dest).tail = s.tail := by
  cases q <;> rfl

@[simp] theorem setForward_thread : (s.setForward t q dest).thread = s.thread := by
  cases q <;> rfl

@[simp] theorem setForward_count : (s.setForward t q dest).count = s.count := by
  cases q <;> rfl

@[simp] theorem setForward_queue : (s.setForward t q dest).queue = s.queue := by
  cases q <;> rfl

@[simp] theorem setBackward_tail :
    (s.setBackward t q dest).tail u = if q = none ∧ u = t then dest else s.tail u := by
  cases q <;> simp [MutexTable.setBackward, Function.update_apply]

@[simp] theorem setBackward_prev :
    (s.setBackward t q dest).prev x = if q = some x then dest else s.prev x := by
  cases q <;> simp [MutexTable.setBackward, Function.update_apply, eq_comm]

@[simp] theorem setBackward_next : (s.setBackward t q dest).next = s.next := by
  cases q <;> rfl

@[simp] theorem setBackward_head : (s.setBackward t q dest).head = s.head := by
  cases q <;> rfl

@[simp] theorem setBackward_thread : (s.setBackward t q dest).thread = s.thread := by
  cases q <;> rfl

@[simp] theorem setBackward_count : (s.setBackward t q dest).count = s.count := by
  cases q <;> rfl

@[simp] theorem setBackward_queue : (s.setBackward t q dest).queue = s.queue := by
  cases q <;> rfl

end Fields

/-- `PushTail` appends a mutex that is not in the queue. -/
theorem Queued.pushTail (h : Queued s t l) (hm : m ∉ l) :
    Queued (s.pushTail t m) t (l ++ [m]) := by
  have hne : ∀ y ∈ l, y ≠ m := fun y hy hym => hm (hym ▸ hy)
  refine ⟨?_, ?_, ?_, ?_⟩
  · refine List.nodup_append.2 ⟨h.nodup, List.pairwise_singleton _ m, ?_⟩
    intro y hy z hz
    rw [List.mem_singleton.1 hz]
    exact hne y hy
  · simp only [MutexTable.pushTail, setForward_head, h.tail, h.head]
    cases l <;> simp
  · simp [MutexTable.pushTail]
  · have hlinks : Segment s.next s.prev none (l ++ []) none := by
      rw [List.append_nil]
      exact h.links
    refine hlinks.link (by rw [List.append_nil]; exact h.nodup) ?_ ?_ ?_ ?_ ?_ ?_
    · intro y hy hlast
      have hy' : y ∈ l := by simpa using hy
      simp [MutexTable.pushTail, hne y hy', h.tail, hlast]
    · intro y hy _
      have hy' : y ∈ l := by simpa using hy
      simp [MutexTable.pushTail, hne y hy']
    · intro y hlast
      have hy := List.mem_of_getLast? hlast
      simp [MutexTable.pushTail, hne y hy, h.tail, hlast]
    · intro y hy
      simp at hy
    · simp [MutexTable.pushTail, h.tail]
    · simp [MutexTable.pushTail]

/-- `PushTail` leaves the queue of another thread. -/
theorem Queued.pushTail_other (h : Queued s u l) (htu : u ≠ t) (hm : m ∉ l)
    (htail : ∀ x, s.tail t = some x → x ∉ l) : Queued (s.pushTail t m) u l := by
  refine h.congr ?_ ?_ ?_ ?_
  · simp [MutexTable.pushTail, htu]
  · simp [MutexTable.pushTail, htu]
  · intro x hx
    have hxm : x ≠ m := fun hxm => hm (hxm ▸ hx)
    have hxt : s.tail t ≠ some x := fun hxt => htail x hxt hx
    simp [MutexTable.pushTail, hxm, hxt]
  · intro x hx
    have hxm : x ≠ m := fun hxm => hm (hxm ▸ hx)
    simp [MutexTable.pushTail, hxm]

/-- `PopItem` takes a mutex out of its queue. -/
theorem Queued.popItem (h : Queued s t (l ++ m :: r)) : Queued (s.popItem t m) t (l ++ r) := by
  obtain ⟨hprev, hnext⟩ := h.fields
  refine ⟨?_, ?_, ?_, ?_⟩
  · exact h.nodup.sublist ((List.sublist_cons_self m r).append_left l)
  · simp only [MutexTable.popItem, setForward_head, setBackward_head, hprev, hnext, h.head]
    cases l <;> simp
  · simp only [MutexTable.popItem, setForward_tail, setBackward_tail, hprev, hnext, h.tail]
    cases r with
    | nil => simp
    | cons x r => simp [List.getLast?_append, List.getLast?_cons]
  · refine h.links.unlink h.nodup ?_ ?_ ?_ ?_
    · intro y _ hlast
      simp [MutexTable.popItem, hprev, hlast]
    · intro y _ hhead
      simp [MutexTable.popItem, hnext, hhead]
    · intro y hlast
      simp [MutexTable.popItem, hprev, hnext, hlast]
    · intro y hhead
      simp [MutexTable.popItem, hprev, hnext, hhead]

/-- `PopItem` leaves the queue of another thread. -/
theorem Queued.popItem_other {own : List μ} (h : Queued s u own) (htu : u ≠ t)
    (ht : Queued s t (l ++ m :: r)) (hapart : ∀ x ∈ l ++ m :: r, x ∉ own) :
    Queued (s.popItem t m) u own := by
  obtain ⟨hprev, hnext⟩ := ht.fields
  refine h.congr ?_ ?_ ?_ ?_
  · simp [MutexTable.popItem, htu]
  · simp [MutexTable.popItem, htu]
  · intro x hx
    have hxl : l.getLast? ≠ some x := fun hxl =>
      hapart x (List.mem_append_left _ (List.mem_of_getLast? hxl)) hx
    simp [MutexTable.popItem, hprev, hxl]
  · intro x hx
    have hxr : r.head? ≠ some x := fun hxr =>
      hapart x (List.mem_append_right _ (List.mem_cons_of_mem m (List.mem_of_head? hxr))) hx
    simp [MutexTable.popItem, hnext, hxr]

/-- `PopHead` is `PopItem` of the first mutex. -/
theorem Queued.popHead_eq (h : Queued s t (m :: r)) : s.popHead t m = s.popItem t m := by
  obtain ⟨hprev, _⟩ := Queued.fields (l := []) h
  simp only [MutexTable.popHead, MutexTable.popItem, hprev]
  rfl

end Os
end Cubiboot
