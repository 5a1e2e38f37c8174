import Cubiboot.Aram.Arq
import Mathlib.Data.List.Nodup
import Mathlib.Tactic.Common

/-!
# What the ARAM request queue has to do

`ArqPlan` has the requests that are outstanding as lists of jobs, without pointers: the
job of high priority in transfer, the one of low priority with how far it has got, and
those that wait.  A post adds a job; the end of a transfer takes the job that it completes
off the plan, and starts the next transfer.

Results: `start_cases`, what the choice of the next transfer comes to; `start_high`,
`start_low` and `start_tasks`, that the choice leaves what is outstanding; and
`start_busy`, that the engine rests only when there is nothing to do.
-/

namespace Cubiboot
namespace Aram

open Words

universe u v

variable {ι : Type u} {κ : Type v}

/-- What is to be done for a request. -/
structure ArqJob (ι : Type u) (κ : Type v) where
  task : ι
  type : Nat
  source : Nat
  dest : Nat
  length : Nat
  callback : ArqCallback κ

/-- The job that a post asks for. -/
def ArqPost.job (p : ArqPost ι κ) : ArqJob ι κ where
  task := p.task
  type := p.request.type
  source := p.request.source
  dest := p.request.dest
  length := p.request.length
  callback := p.request.callback

/-- The transfer of `length` bytes of a job from byte `sent` on. -/
def ArqJob.part (j : ArqJob ι κ) (sent length : Nat) : Dma :=
  if j.type = arqTypeMramToAram then
    ⟨j.type, word (j.source + sent), word (j.dest + sent), length⟩
  else
    ⟨j.type, word (j.dest + sent), word (j.source + sent), length⟩

/-- All of a job in one transfer. -/
def ArqJob.whole (j : ArqJob ι κ) : Dma :=
  j.part 0 j.length

/-- The chunk from byte `sent` on is the last. -/
def ArqJob.Last (j : ArqJob ι κ) (sent : Nat) : Prop :=
  j.length - sent ≤ arqChunkSizeDefault

instance (j : ArqJob ι κ) (sent : Nat) : Decidable (j.Last sent) :=
  inferInstanceAs (Decidable (_ ≤ _))

/-- The chunk from byte `sent` on. -/
def ArqJob.chunk (j : ArqJob ι κ) (sent : Nat) : Dma :=
  j.part sent (if j.Last sent then j.length - sent else arqChunkSizeDefault)

/-- The outstanding requests; `pendingLo` has where the chunk that was started last begins. -/
structure ArqPlan (ι : Type u) (κ : Type v) where
  pendingHi : Option (ArqJob ι κ)
  waitingHi : List (ArqJob ι κ)
  pendingLo : Option (ArqJob ι κ × Nat)
  waitingLo : List (ArqJob ι κ)

/-- The jobs of high priority, in the order in which they are served. -/
def ArqPlan.high (a : ArqPlan ι κ) : List (ArqJob ι κ) :=
  a.pendingHi.toList ++ a.waitingHi

/-- The jobs of low priority, in the order in which they are served. -/
def ArqPlan.low (a : ArqPlan ι κ) : List (ArqJob ι κ) :=
  (a.pendingLo.map Prod.fst).toList ++ a.waitingLo

/-- The requests that are outstanding. -/
def ArqPlan.tasks (a : ArqPlan ι κ) : List ι :=
  (a.high ++ a.low).map ArqJob.task

/-- The transfer in flight. -/
def ArqPlan.dma (a : ArqPlan ι κ) : Option Dma :=
  match a.pendingHi with
  | some j => some j.whole
  | none => a.pendingLo.map fun p => p.1.chunk p.2

/-- The start of the next transfer. -/
def ArqPlan.start (a : ArqPlan ι κ) : ArqPlan ι κ :=
  match a.waitingHi with
  | j :: waiting => { a with pendingHi := some j, waitingHi := waiting }
  | [] =>
      match a.pendingLo with
      | some (j, sent) => { a with pendingLo := some (j, sent + arqChunkSizeDefault) }
      | none =>
          match a.waitingLo with
          | j :: waiting => { a with pendingLo := some (j, 0), waitingLo := waiting }
          | [] => a

/-- One more job. -/
def ArqPlan.add (a : ArqPlan ι κ) (p : ArqPost ι κ) : ArqPlan ι κ :=
  if p.priority = arqPriorityLow then
    { a with waitingLo := a.waitingLo ++ [p.job] }
  else if p.priority = arqPriorityHigh then
    { a with waitingHi := a.waitingHi ++ [p.job] }
  else
    a

/-- Nothing is in transfer. -/
def ArqPlan.Idle (a : ArqPlan ι κ) : Prop :=
  a.pendingHi = none ∧ a.pendingLo = none

instance (a : ArqPlan ι κ) : Decidable a.Idle :=
  decidable_of_iff (a.pendingHi.isNone ∧ a.pendingLo.isNone) (by
    rw [Option.isNone_iff_eq_none, Option.isNone_iff_eq_none]
    rfl)

/-- A post. -/
def ArqPlan.post (a : ArqPlan ι κ) (p : ArqPost ι κ) : ArqPlan ι κ :=
  if a.Idle then (a.add p).start else a.add p

/-- What a callback posts, of `posts`. -/
def ArqCallback.posts (f : ArqCallback κ) (posts : List (ArqPost ι κ)) : List (ArqPost ι κ) :=
  match f with
  | .hack => []
  | .user _ => posts

/-- The job that the transfer in flight completes, and the plan without it. -/
def ArqPlan.completes (a : ArqPlan ι κ) : Option (ArqJob ι κ × ArqPlan ι κ) :=
  match a.pendingHi, a.pendingLo with
  | some j, _ => some (j, { a with pendingHi := none })
  | none, some (j, sent) => if j.Last sent then some (j, { a with pendingLo := none }) else none
  | none, none => none

/-- The end of a transfer, with what the callback posts if there is one. -/
def ArqPlan.interrupt (a : ArqPlan ι κ) (posts : List (ArqPost ι κ)) : ArqPlan ι κ :=
  match a.completes with
  | some (j, a') => ((j.callback.posts posts).foldl ArqPlan.add a').start
  | none => a.start

/-- Nothing outstanding. -/
def ArqPlan.empty : ArqPlan ι κ :=
  ⟨none, [], none, []⟩

section Plans

variable {a : ArqPlan ι κ} {p : ArqPost ι κ}

@[simp] theorem add_pendingHi : (a.add p).pendingHi = a.pendingHi := by
  simp only [ArqPlan.add]
  split
  · rfl
  · split <;> rfl

@[simp] theorem add_pendingLo : (a.add p).pendingLo = a.pendingLo := by
  simp only [ArqPlan.add]
  split
  · rfl
  · split <;> rfl

theorem high_none (h : a.pendingHi = none) : a.high = a.waitingHi := by
  rw [ArqPlan.high, h]
  rfl

theorem high_some {j : ArqJob ι κ} (h : a.pendingHi = some j) :
    a.high = j :: a.waitingHi := by
  rw [ArqPlan.high, h]
  rfl

theorem low_none (h : a.pendingLo = none) : a.low = a.waitingLo := by
  rw [ArqPlan.low, h]
  rfl

theorem low_some {j : ArqJob ι κ} {sent : Nat} (h : a.pendingLo = some (j, sent)) :
    a.low = j :: a.waitingLo := by
  rw [ArqPlan.low, h]
  rfl

/-- What a start does, one case for each transfer that there may be. -/
theorem start_cases (hhi : a.pendingHi = none) :
    (∃ j waiting, a.waitingHi = j :: waiting ∧
      a.start = { a with pendingHi := some j, waitingHi := waiting }) ∨
    (∃ j sent, a.waitingHi = [] ∧ a.pendingLo = some (j, sent) ∧
      a.start = { a with pendingLo := some (j, sent + arqChunkSizeDefault) }) ∨
    (∃ j waiting, a.waitingHi = [] ∧ a.pendingLo = none ∧ a.waitingLo = j :: waiting ∧
      a.start = { a with pendingLo := some (j, 0), waitingLo := waiting }) ∨
    (a.waitingHi = [] ∧ a.pendingLo = none ∧ a.waitingLo = [] ∧ a.start = a) := by
  obtain ⟨pendingHi, waitingHi, pendingLo, waitingLo⟩ := a
  cases waitingHi with
  | cons j waiting => exact .inl ⟨j, waiting, rfl, rfl⟩
  | nil =>
      cases pendingLo with
      | some q => exact .inr (.inl ⟨q.1, q.2, rfl, rfl, rfl⟩)
      | none =>
          cases waitingLo with
          | cons j waiting => exact .inr (.inr (.inl ⟨j, waiting, rfl, rfl, rfl, rfl⟩))
          | nil => exact .inr (.inr (.inr ⟨rfl, rfl, rfl, rfl⟩))

/-- A start leaves what is outstanding. -/
theorem start_high (hhi : a.pendingHi = none) : a.start.high = a.high := by
  rcases start_cases hhi with ⟨j, waiting, hw, hs⟩ | ⟨j, sent, hw, hlo, hs⟩ |
    ⟨j, waiting, hw, hlo, hwl, hs⟩ | ⟨hw, hlo, hwl, hs⟩ <;> rw [hs]
  · rw [high_some rfl, high_none hhi, hw]
  · rfl
  · rfl

theorem start_low (hhi : a.pendingHi = none) : a.start.low = a.low := by
  rcases start_cases hhi with ⟨j, waiting, hw, hs⟩ | ⟨j, sent, hw, hlo, hs⟩ |
    ⟨j, waiting, hw, hlo, hwl, hs⟩ | ⟨hw, hlo, hwl, hs⟩ <;> rw [hs]
  · rfl
  · rw [low_some rfl, low_some hlo]
  · rw [low_some rfl, low_none hlo, hwl]

theorem start_tasks (hhi : a.pendingHi = none) : a.start.tasks = a.tasks := by
  rw [ArqPlan.tasks, start_high hhi, start_low hhi, ArqPlan.tasks]

/-- After a start the engine rests only when there is nothing to do. -/
theorem start_busy (hhi : a.pendingHi = none) (hidle : a.start.Idle) :
    a.start.waitingHi = [] ∧ a.start.waitingLo = [] := by
  rcases start_cases hhi with ⟨j, waiting, _, hs⟩ | ⟨j, sent, _, _, hs⟩ |
    ⟨j, waiting, _, _, _, hs⟩ | ⟨hw, _, hwl, hs⟩
  · rw [hs] at hidle
    cases hidle.1
  · rw [hs] at hidle
    cases hidle.2
  · rw [hs] at hidle
    cases hidle.2
  · rw [hs]
    exact ⟨hw, hwl⟩

/-- The outstanding requests after a post. -/
theorem add_tasks_perm :
    (a.add p).tasks.Perm
      (if p.priority = arqPriorityLow ∨ p.priority = arqPriorityHigh then
        p.task :: a.tasks
      else
        a.tasks) := by
  by_cases hlo : p.priority = arqPriorityLow
  · rw [if_pos (.inl hlo), ArqPlan.add, if_pos hlo]
    have happ : ArqPlan.tasks { a with waitingLo := a.waitingLo ++ [p.job] } =
        a.tasks ++ [p.task] := by
      simp [ArqPlan.tasks, ArqPlan.high, ArqPlan.low, ArqPost.job]
    rw [happ]
    exact List.perm_append_singleton _ _
  · by_cases hhi : p.priority = arqPriorityHigh
    · rw [if_pos (.inr hhi), ArqPlan.add, if_neg hlo, if_pos hhi]
      have happ : ArqPlan.tasks { a with waitingHi := a.waitingHi ++ [p.job] } =
          a.high.map ArqJob.task ++ p.task :: a.low.map ArqJob.task := by
        simp [ArqPlan.tasks, ArqPlan.high, ArqPlan.low, ArqPost.job]
      rw [happ, ArqPlan.tasks, List.map_append]
      exact List.perm_middle
    · rw [if_neg (by tauto), ArqPlan.add, if_neg hlo, if_neg hhi]

/-- A request that is not outstanding may be posted. -/
theorem add_distinct (h : a.tasks.Nodup) (hp : p.task ∉ a.tasks) : (a.add p).tasks.Nodup := by
  rw [add_tasks_perm.nodup_iff]
  split
  · exact List.nodup_cons.2 ⟨hp, h⟩
  · exact h

/-- Each post is of a request that is not outstanding then. -/
def FreePosts (a : ArqPlan ι κ) : List (ArqPost ι κ) → Prop
  | [] => True
  | p :: posts => p.task ∉ a.tasks ∧ FreePosts (a.add p) posts

end Plans

end Aram
end Cubiboot
