import Cubiboot.Foundations.Words
import Mathlib.Logic.Function.Basic

/-!
# The ARAM request queue

The two queues that `decomp_arq.c` keeps over the one DMA engine between main memory
and ARAM.  A request of high priority is transferred at once, one of low priority a
chunk at a time; which is next is decided in the interrupt that ends a transfer, after
the callback of a request that is complete.

A request is known by a pointer, and a callback by its address; what a callback posts
is given with the interrupt.  The engine has one transfer in flight; `cut` has those
that were still in flight when the next one was started.

The chunk size is the one `ARQInit` sets, and the interrupt is taken to come only when
a transfer has ended. The runs of this queue are the subject of `ArqRuns`, and its
agreement with a queue without pointers that of `ArqRefines`.
-/

namespace Cubiboot
namespace Aram

open Words

universe u v

/-- `ARQ_CHUNK_SIZE_DEFAULT`. -/
def arqChunkSizeDefault : Nat := 4096

/-- `ARQ_TYPE_MRAM_TO_ARAM`. -/
def arqTypeMramToAram : Nat := 0

/-- `ARQ_PRIORITY_LOW`. -/
def arqPriorityLow : Nat := 0

/-- `ARQ_PRIORITY_HIGH`. -/
def arqPriorityHigh : Nat := 1

/-- What `callback` of a request points to. -/
inductive ArqCallback (κ : Type v) where
  /-- `__ARQCallbackHack`. -/
  | hack
  | user (f : κ)
deriving DecidableEq

/-- An `ARQRequest`. -/
structure ArqRequest (ι : Type u) (κ : Type v) where
  next : Option ι
  owner : Nat
  type : Nat
  source : Nat
  dest : Nat
  length : Nat
  callback : ArqCallback κ

/-- The arguments of `ARStartDMA`. -/
structure Dma where
  type : Nat
  mainmemAddr : Nat
  aramAddr : Nat
  length : Nat
deriving DecidableEq

/-- A request queue and its tail. -/
structure ArqQueue (ι : Type u) where
  head : Option ι
  tail : Option ι

/-- The variables of `decomp_arq.c`, the requests they point to and the engine. -/
structure ArqState (ι : Type u) (κ : Type v) where
  task : ι → ArqRequest ι κ
  requestQueueHi : ArqQueue ι
  requestQueueLo : ArqQueue ι
  requestPendingHi : Option ι
  requestPendingLo : Option ι
  callbackHi : Option (ArqCallback κ)
  callbackLo : Option (ArqCallback κ)
  chunkSize : Nat
  dma : Option Dma
  cut : List Dma

/-- The arguments of `decomp_ARQPostRequest`. -/
structure ArqPost (ι : Type u) (κ : Type v) where
  task : ι
  owner : Nat
  type : Nat
  priority : Nat
  source : Nat
  dest : Nat
  length : Nat
  callback : Option κ

variable {ι : Type u} {κ : Type v}

/-- The transfer of the next `length` bytes of a request. -/
def ArqRequest.dma (r : ArqRequest ι κ) (length : Nat) : Dma :=
  if r.type = arqTypeMramToAram then
    ⟨r.type, r.source, r.dest, length⟩
  else
    ⟨r.type, r.dest, r.source, length⟩

/-- `ARStartDMA`. -/
def arStartDma (s : ArqState ι κ) (d : Dma) : ArqState ι κ :=
  { s with dma := some d, cut := s.cut ++ s.dma.toList }

/-- `__ARQPopTaskQueueHi`. -/
def arqPopTaskQueueHi (s : ArqState ι κ) : ArqState ι κ :=
  match s.requestQueueHi.head with
  | none => s
  | some t =>
      let r := s.task t
      { arStartDma s (r.dma r.length) with
        callbackHi := some r.callback
        requestPendingHi := some t
        requestQueueHi := { s.requestQueueHi with head := r.next } }

section Tasks

variable [DecidableEq ι]

/-- Change a request. -/
def ArqState.setTask (s : ArqState ι κ) (t : ι) (r : ArqRequest ι κ) : ArqState ι κ :=
  { s with task := Function.update s.task t r }

/-- The first test of `__ARQServiceQueueLo`. -/
def arqTakeLo (s : ArqState ι κ) : ArqState ι κ :=
  match s.requestPendingLo, s.requestQueueLo.head with
  | none, some t =>
      { s with
        requestPendingLo := some t
        requestQueueLo := { s.requestQueueLo with head := (s.task t).next } }
  | _, _ => s

/-- The second test of `__ARQServiceQueueLo`. -/
def arqServeLo (s : ArqState ι κ) : ArqState ι κ :=
  match s.requestPendingLo with
  | none => s
  | some t =>
      let r := s.task t
      let s :=
        if r.length ≤ s.chunkSize then
          { arStartDma s (r.dma r.length) with callbackLo := some r.callback }
        else
          arStartDma s (r.dma s.chunkSize)
      s.setTask t
        { r with
          length := wordSub r.length s.chunkSize
          source := word (r.source + s.chunkSize)
          dest := word (r.dest + s.chunkSize) }

/-- `__ARQServiceQueueLo`. -/
def arqServiceQueueLo (s : ArqState ι κ) : ArqState ι κ :=
  arqServeLo (arqTakeLo s)

/-- The start of the next transfer, of high priority if there is one. -/
def arqStartNext (s : ArqState ι κ) : ArqState ι κ :=
  let s := arqPopTaskQueueHi s
  if s.requestPendingHi.isNone then arqServiceQueueLo s else s

/-- The request that `decomp_ARQPostRequest` fills in. -/
def ArqPost.request (p : ArqPost ι κ) : ArqRequest ι κ where
  next := none
  owner := word p.owner
  type := word p.type
  source := word p.source
  dest := word p.dest
  length := word p.length
  callback := p.callback.elim .hack .user

/-- One case of the `switch` of `decomp_ARQPostRequest`: the requests and the queue. -/
def arqEnqueue
    (task : ι → ArqRequest ι κ) (q : ArqQueue ι) (t : ι) :
    (ι → ArqRequest ι κ) × ArqQueue ι :=
  match q.head with
  | none => (task, ⟨some t, some t⟩)
  | some _ =>
      match q.tail with
      | none => (task, { q with tail := some t })
      | some last =>
          (Function.update task last { task last with next := some t },
            { q with tail := some t })

/-- The `switch` of `decomp_ARQPostRequest`. -/
def arqQueueTask (s : ArqState ι κ) (t : ι) (priority : Nat) : ArqState ι κ :=
  if priority = arqPriorityLow then
    let (task, q) := arqEnqueue s.task s.requestQueueLo t
    { s with task := task, requestQueueLo := q }
  else if priority = arqPriorityHigh then
    let (task, q) := arqEnqueue s.task s.requestQueueHi t
    { s with task := task, requestQueueHi := q }
  else
    s

/-- `decomp_ARQPostRequest` up to the test whether anything is pending. -/
def arqAddRequest (s : ArqState ι κ) (p : ArqPost ι κ) : ArqState ι κ :=
  arqQueueTask (s.setTask p.task p.request) p.task p.priority

/-- `decomp_ARQPostRequest`. -/
def arqPostRequest (s : ArqState ι κ) (p : ArqPost ι κ) : ArqState ι κ :=
  let s := arqAddRequest s p
  if s.requestPendingHi.isNone && s.requestPendingLo.isNone then arqStartNext s else s

/-- The posts of a callback: `__ARQCallbackHack` makes none. -/
def arqCall
    (s : ArqState ι κ) (callback : ArqCallback κ) (posts : List (ArqPost ι κ)) :
    ArqState ι κ :=
  match callback with
  | .hack => s
  | .user _ => posts.foldl arqPostRequest s

/-- The callback that `__ARQInterruptServiceRoutine` calls, and for which request. -/
def arqCalled (s : ArqState ι κ) : Option (ArqCallback κ × Option ι) :=
  match s.callbackHi, s.callbackLo with
  | some f, _ => some (f, s.requestPendingHi)
  | none, some f => some (f, s.requestPendingLo)
  | none, none => none

/-- `__ARQInterruptServiceRoutine`, the callback of which posts `posts`. -/
def arqInterruptServiceRoutine
    (s : ArqState ι κ) (posts : List (ArqPost ι κ)) : ArqState ι κ :=
  let s :=
    match s.callbackHi, s.callbackLo with
    | some f, _ =>
        { arqCall s f posts with requestPendingHi := none, callbackHi := none }
    | none, some f =>
        { arqCall s f posts with requestPendingLo := none, callbackLo := none }
    | none, none => s
  arqStartNext s

/-- The interrupt that ends a transfer. -/
def arqDmaInterrupt (s : ArqState ι κ) (posts : List (ArqPost ι κ)) : ArqState ι κ :=
  arqInterruptServiceRoutine { s with dma := none } posts

/-- `ARQInit`, with the engine at rest. -/
def arqInit (task : ι → ArqRequest ι κ) (tailHi tailLo : Option ι) : ArqState ι κ where
  task := task
  requestQueueHi := ⟨none, tailHi⟩
  requestQueueLo := ⟨none, tailLo⟩
  requestPendingHi := none
  requestPendingLo := none
  callbackHi := none
  callbackLo := none
  chunkSize := arqChunkSizeDefault
  dma := none
  cut := []

end Tasks

end Aram
end Cubiboot
