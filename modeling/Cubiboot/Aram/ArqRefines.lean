import Cubiboot.Aram.ArqPlan
import Cubiboot.Foundations.LinkedQueue

/-!
# The ARAM request queue carries out its plan

`Represents s a` says that the variables of `decomp_arq.c` stand for the plan `a`.
`Represents.post` and `Represents.interrupt` say that its functions carry the plan out,
for requests that are not outstanding when they are posted; a request may be posted
again by its own callback.

While a transfer is chosen the engine is at rest and the plan has not been started:
`Stands` is what holds then.

Results: `Stands.start`, the start of the next transfer; `Represents.called`, that the
interrupt calls back the job which is complete; and `Represents.post` and
`Represents.interrupt`, the two steps of the refinement.
-/

namespace Cubiboot
namespace Aram

open Words LinkedQueue

universe u v

variable {ι : Type u} {κ : Type v}

/-- A request of which `sent` bytes have been started. -/
structure Asks (r : ArqRequest ι κ) (j : ArqJob ι κ) (sent : Nat) : Prop where
  type : r.type = j.type
  source : r.source = word (j.source + sent)
  dest : r.dest = word (j.dest + sent)
  length : r.length = j.length - sent
  callback : r.callback = j.callback

/-- The requests of a queue, of which nothing has been started. -/
structure Waits
    (task : ι → ArqRequest ι κ) (q : ArqQueue ι) (jobs : List (ArqJob ι κ)) : Prop where
  queued : Queued (fun t => (task t).next) q.head q.tail (jobs.map ArqJob.task)
  asks : ∀ j ∈ jobs, Asks (task j.task) j 0

section Requests

variable {r : ArqRequest ι κ} {j : ArqJob ι κ} {sent : Nat} {p : ArqPost ι κ}

theorem word_word (x : Nat) : word (word x) = word x :=
  word_of_lt word_lt

theorem post_asks (p : ArqPost ι κ) : Asks p.request p.job 0 where
  type := rfl
  source := (word_word _).symm
  dest := (word_word _).symm
  length := rfl
  callback := rfl

theorem job_length_lt (p : ArqPost ι κ) : p.job.length < 0x100000000 :=
  word_lt

/-- The next transfer of a request. -/
theorem Asks.dma (h : Asks r j sent) (length : Nat) : r.dma length = j.part sent length := by
  rw [ArqRequest.dma, ArqJob.part, h.type, h.source, h.dest]

theorem Asks.whole (h : Asks r j 0) : r.dma r.length = j.whole := by
  rw [h.dma, h.length]
  rfl

theorem Asks.with_next (h : Asks r j sent) (next : Option ι) :
    Asks { r with next := next } j sent :=
  ⟨h.type, h.source, h.dest, h.length, h.callback⟩

theorem word_add_chunk (x n : Nat) : word (word (x + n) + arqChunkSizeDefault) =
    word (x + (n + arqChunkSizeDefault)) := by
  simp only [word, Nat.mod_add_mod, Nat.add_assoc]

theorem length_less_chunk (hmore : ¬ j.Last sent) (hlt : j.length < 0x100000000) :
    wordSub (j.length - sent) arqChunkSizeDefault = j.length - (sent + arqChunkSizeDefault) := by
  have hle : arqChunkSizeDefault ≤ j.length - sent := Nat.le_of_not_le hmore
  rw [wordSub_of_le hle (Nat.lt_of_le_of_lt (Nat.sub_le _ _) hlt), Nat.sub_add_eq]

/-- The fields that `__ARQServiceQueueLo` moves on. -/
theorem Asks.move_on (h : Asks r j sent) (hmore : ¬ j.Last sent)
    (hlt : j.length < 0x100000000) :
    Asks
      { r with
        length := wordSub r.length arqChunkSizeDefault
        source := word (r.source + arqChunkSizeDefault)
        dest := word (r.dest + arqChunkSizeDefault) }
      j (sent + arqChunkSizeDefault) := by
  refine ⟨h.type, ?_, ?_, ?_, h.callback⟩
  · rw [h.source]
    exact word_add_chunk _ _
  · rw [h.dest]
    exact word_add_chunk _ _
  · rw [h.length]
    exact length_less_chunk hmore hlt

end Requests

section Queues

variable {task task' : ι → ArqRequest ι κ} {q : ArqQueue ι} {jobs : List (ArqJob ι κ)}
variable {t : ι} {j : ArqJob ι κ} {sent : Nat}

/-- The first request is taken off. -/
theorem Waits.pop (h : Waits task q (j :: jobs)) :
    q.head = some j.task ∧ Asks (task j.task) j 0 ∧
      Waits task { q with head := (task j.task).next } jobs := by
  obtain ⟨hhead, hrest⟩ := h.queued.pop
  exact ⟨hhead, h.asks j List.mem_cons_self,
    hrest, fun k hk => h.asks k (List.mem_cons_of_mem j hk)⟩

variable [DecidableEq ι]

/-- Another request may be filled in. -/
theorem Waits.update (h : Waits task q jobs) (ht : t ∉ jobs.map ArqJob.task)
    (r : ArqRequest ι κ) : Waits (Function.update task t r) q jobs := by
  have hne : ∀ z ∈ jobs.map ArqJob.task, z ≠ t := by
    rintro z hz rfl
    exact ht hz
  refine ⟨h.queued.congr fun z hz => ?_, fun j hj => ?_⟩
  · rw [Function.update_of_ne (hne z hz)]
  · rw [Function.update_of_ne (hne _ (List.mem_map_of_mem hj))]
    exact h.asks j hj

/-- A `case` of the `switch` changes the `next` of a request of its own queue at most. -/
theorem enqueue_task (h : Waits task q jobs) (z : ι) :
    (arqEnqueue task q t).1 z = task z ∨
      z ∈ jobs.map ArqJob.task ∧ (arqEnqueue task q t).1 z = { task z with next := some t } := by
  rw [arqEnqueue]
  cases hhead : q.head with
  | none => exact .inl rfl
  | some x =>
      have hne : jobs.map ArqJob.task ≠ [] := fun hnil => by
        rw [h.queued.head_none_iff.2 hnil] at hhead
        cases hhead
      have htail := h.queued.tail hne
      cases hlast : q.tail with
      | none => exact .inl rfl
      | some last =>
          by_cases hz : z = last
          · refine .inr ⟨?_, ?_⟩
            · rw [hz]
              rw [hlast] at htail
              exact List.mem_of_getLast? htail.symm
            · simp only [hz, Function.update_self]
          · exact .inl (Function.update_of_ne hz _ _)

/-- The requests of another queue stay as they are. -/
theorem Waits.enqueue_other {q' : ArqQueue ι} {jobs' : List (ArqJob ι κ)}
    (h : Waits task q jobs) (h' : Waits task q' jobs')
    (hapart : ∀ z ∈ jobs.map ArqJob.task, z ∉ jobs'.map ArqJob.task) :
    Waits (arqEnqueue task q' t).1 q jobs := by
  have hsame : ∀ z ∈ jobs.map ArqJob.task, (arqEnqueue task q' t).1 z = task z := by
    intro z hz
    exact (enqueue_task h' z).resolve_right fun hin => hapart z hz hin.1
  refine ⟨h.queued.congr fun z hz => by rw [hsame z hz], fun j hj => ?_⟩
  rw [hsame _ (List.mem_map_of_mem hj)]
  exact h.asks j hj

theorem Asks.enqueue (h : Waits task q jobs) (hj : Asks (task j.task) j sent) :
    Asks ((arqEnqueue task q t).1 j.task) j sent := by
  rcases enqueue_task (t := t) h j.task with heq | ⟨_, heq⟩
  · rw [heq]
    exact hj
  · rw [heq]
    exact hj.with_next _

/-- A new request is queued behind the others. -/
theorem Waits.enqueue (h : Waits task q jobs) (hj : Asks (task j.task) j 0)
    (hnew : (task j.task).next = none) (hout : j.task ∉ jobs.map ArqJob.task) :
    Waits (arqEnqueue task q j.task).1 (arqEnqueue task q j.task).2 (jobs ++ [j]) := by
  refine ⟨?_, fun k hk => ?_⟩
  · rw [List.map_append, List.map_singleton]
    have hqueued := h.queued
    cases hhead : q.head with
    | none =>
        rw [h.queued.head_none_iff.1 hhead]
        simp only [arqEnqueue, hhead]
        exact Queued.first hnew
    | some x =>
        have hne : jobs.map ArqJob.task ≠ [] := fun hnil => by
          rw [h.queued.head_none_iff.2 hnil] at hhead
          cases hhead
        have htail := h.queued.tail hne
        cases hlast : q.tail with
        | none =>
            rw [hlast] at htail
            exact absurd (List.getLast?_eq_none_iff.1 htail.symm) hne
        | some last =>
            have hin : last ∈ jobs.map ArqJob.task := by
              rw [hlast] at htail
              exact List.mem_of_getLast? htail.symm
            have hapart : j.task ≠ last := by
              rintro rfl
              exact hout hin
            simp only [arqEnqueue, hhead, hlast]
            rw [hhead, hlast] at hqueued
            refine hqueued.push hout rfl hne ?_ ?_ fun z _ hz => ?_
            · simp only [Function.update_self]
            · simp only [Function.update_of_ne hapart]
              exact hnew
            · simp only [Function.update_of_ne hz]
  · rcases List.mem_append.1 hk with hk | hk
    · exact (h.asks k hk).enqueue h
    · obtain rfl := List.mem_singleton.1 hk
      exact hj.enqueue h

end Queues

/-- The variables stand for a plan, whatever the engine does. -/
structure Stands (s : ArqState ι κ) (a : ArqPlan ι κ) : Prop where
  waitingHi : Waits s.task s.requestQueueHi a.waitingHi
  waitingLo : Waits s.task s.requestQueueLo a.waitingLo
  pendingHi : s.requestPendingHi = a.pendingHi.map ArqJob.task
  pendingLo : s.requestPendingLo = a.pendingLo.map fun p => p.1.task
  callbackHi : s.callbackHi = a.pendingHi.map ArqJob.callback
  callbackLo : s.callbackLo =
    a.pendingLo.bind fun p => if p.1.Last p.2 then some p.1.callback else none
  moved : ∀ j sent, a.pendingLo = some (j, sent) → ¬ j.Last sent →
    Asks (s.task j.task) j (sent + arqChunkSizeDefault)
  short : ∀ j ∈ a.low, j.length < 0x100000000
  distinct : a.tasks.Nodup
  chunkSize : s.chunkSize = arqChunkSizeDefault
  cut : s.cut = []

/-- The variables and the engine stand for a plan. -/
structure Represents (s : ArqState ι κ) (a : ArqPlan ι κ) : Prop extends Stands s a where
  dma : s.dma = a.dma
  busy : a.Idle → a.waitingHi = [] ∧ a.waitingLo = []
  overtaken : ∀ j sent, a.pendingHi.isSome → a.pendingLo = some (j, sent) → ¬ j.Last sent

section States

variable {s : ArqState ι κ} {a : ArqPlan ι κ} {p : ArqPost ι κ}

/-- The job in transfer does not wait. -/
theorem pendingLo_apart {j : ArqJob ι κ} {sent : Nat}
    (h : a.tasks.Nodup) (hlo : a.pendingLo = some (j, sent)) :
    j.task ∉ a.waitingHi.map ArqJob.task ∧ j.task ∉ a.waitingLo.map ArqJob.task := by
  rw [ArqPlan.tasks, low_some hlo, ArqPlan.high, List.map_append, List.map_append,
    List.map_cons, List.nodup_append, List.nodup_cons] at h
  refine ⟨fun hin => ?_, h.2.1.1⟩
  exact h.2.2 _ (List.mem_append_right _ hin) _ List.mem_cons_self rfl

theorem mem_tasks_waitingHi {t : ι} (h : t ∈ a.waitingHi.map ArqJob.task) : t ∈ a.tasks := by
  rw [ArqPlan.tasks, List.map_append]
  refine List.mem_append_left _ ?_
  rw [ArqPlan.high, List.map_append]
  exact List.mem_append_right _ h

theorem mem_tasks_waitingLo {t : ι} (h : t ∈ a.waitingLo.map ArqJob.task) : t ∈ a.tasks := by
  rw [ArqPlan.tasks, List.map_append]
  refine List.mem_append_right _ ?_
  rw [ArqPlan.low, List.map_append]
  exact List.mem_append_right _ h

theorem mem_tasks_pendingLo {j : ArqJob ι κ} {sent : Nat}
    (h : a.pendingLo = some (j, sent)) : j.task ∈ a.tasks := by
  rw [ArqPlan.tasks, low_some h]
  simp

/-- The requests that wait in one queue do not wait in the other. -/
theorem waiting_apart (h : a.tasks.Nodup) :
    ∀ t ∈ a.waitingHi.map ArqJob.task, t ∉ a.waitingLo.map ArqJob.task := by
  intro t hhi hlo
  rw [ArqPlan.tasks, List.map_append, List.nodup_append] at h
  refine h.2.2 t ?_ t ?_ rfl
  · rw [ArqPlan.high, List.map_append]
    exact List.mem_append_right _ hhi
  · rw [ArqPlan.low, List.map_append]
    exact List.mem_append_right _ hlo

/-- The start of a transfer of high priority. -/
theorem Stands.pop {j : ArqJob ι κ} {waiting : List (ArqJob ι κ)}
    (h : Stands s a) (hhi : a.pendingHi = none) (hdma : s.dma = none)
    (hw : a.waitingHi = j :: waiting) :
    Stands (arqPopTaskQueueHi s) { a with pendingHi := some j, waitingHi := waiting } ∧
      (arqPopTaskQueueHi s).dma = some j.whole := by
  have hwait := h.waitingHi
  rw [hw] at hwait
  obtain ⟨hhead, hasks, hrest⟩ := hwait.pop
  have htasks : ArqPlan.tasks { a with pendingHi := some j, waitingHi := waiting } = a.tasks := by
    rw [ArqPlan.tasks, high_some rfl, ArqPlan.tasks, high_none hhi, hw]
    rfl
  simp only [arqPopTaskQueueHi, hhead, arStartDma]
  refine ⟨⟨hrest, h.waitingLo, rfl, h.pendingLo, ?_, h.callbackLo, h.moved, h.short,
    htasks ▸ h.distinct, h.chunkSize, ?_⟩, ?_⟩
  · rw [hasks.callback]
    rfl
  · rw [hdma, h.cut]
    rfl
  · rw [hasks.whole]

/-- The engine rests exactly when nothing is pending. -/
theorem Stands.idle_iff (h : Stands s a) :
    (s.requestPendingHi.isNone && s.requestPendingLo.isNone) = true ↔ a.Idle := by
  rw [h.pendingHi, h.pendingLo, Bool.and_eq_true, Option.isNone_map, Option.isNone_map,
    Option.isNone_iff_eq_none, Option.isNone_iff_eq_none]
  rfl

theorem add_idle_iff : (a.add p).Idle ↔ a.Idle := by
  rw [ArqPlan.Idle, add_pendingHi, add_pendingLo]
  rfl

/-- The request of high priority in transfer is complete. -/
def clearHi (s : ArqState ι κ) : ArqState ι κ :=
  { s with requestPendingHi := none, callbackHi := none }

/-- The request of low priority in transfer is complete. -/
def clearLo (s : ArqState ι κ) : ArqState ι κ :=
  { s with requestPendingLo := none, callbackLo := none }

theorem Stands.at_rest (h : Stands s a) : Stands { s with dma := none } a :=
  ⟨h.waitingHi, h.waitingLo, h.pendingHi, h.pendingLo, h.callbackHi, h.callbackLo, h.moved,
    h.short, h.distinct, h.chunkSize, h.cut⟩

/-- The plan without the job of high priority in transfer. -/
theorem Stands.clearHi (h : Stands s a) :
    Stands (clearHi s) { a with pendingHi := none } := by
  refine ⟨h.waitingHi, h.waitingLo, rfl, h.pendingLo, rfl, h.callbackLo, h.moved, h.short, ?_,
    h.chunkSize, h.cut⟩
  have hsub : (ArqPlan.tasks { a with pendingHi := none }).Sublist a.tasks := by
    refine (List.Sublist.append ?_ (List.Sublist.refl _)).map _
    exact List.sublist_append_right _ _
  exact h.distinct.sublist hsub

/-- The plan without the job of low priority in transfer. -/
theorem Stands.clearLo (h : Stands s a) :
    Stands (clearLo s) { a with pendingLo := none } := by
  have hlow : (ArqPlan.low { a with pendingLo := none }).Sublist a.low :=
    List.sublist_append_right _ _
  refine ⟨h.waitingHi, h.waitingLo, h.pendingHi, rfl, h.callbackHi, rfl, ?_, ?_, ?_,
    h.chunkSize, h.cut⟩
  · rintro j sent ⟨⟩
  · exact fun j hj => h.short j (hlow.subset hj)
  · exact h.distinct.sublist ((List.Sublist.append (List.Sublist.refl _) hlow).map _)

/-- The callback that the interrupt calls is that of the job which is complete. -/
theorem Represents.called (h : Represents s a) :
    arqCalled s = a.completes.map fun q => (q.1.callback, some q.1.task) := by
  rw [arqCalled, h.callbackHi, h.callbackLo, h.pendingHi, h.pendingLo, ArqPlan.completes]
  cases a.pendingHi with
  | some j => rfl
  | none =>
      cases a.pendingLo with
      | none => rfl
      | some q =>
          simp only [Option.bind_some, Option.map_some, Option.map_none]
          by_cases hl : q.1.Last q.2
          · simp only [if_pos hl, Option.map_some]
          · simp only [if_neg hl, Option.map_none]

/-- Nothing is outstanding after `ARQInit`. -/
theorem represents_init (task : ι → ArqRequest ι κ) (tailHi tailLo : Option ι) :
    Represents (arqInit task tailHi tailLo) ArqPlan.empty where
  waitingHi := ⟨Queued.nil, fun _ hj => absurd hj List.not_mem_nil⟩
  waitingLo := ⟨Queued.nil, fun _ hj => absurd hj List.not_mem_nil⟩
  pendingHi := rfl
  pendingLo := rfl
  callbackHi := rfl
  callbackLo := rfl
  moved := by
    rintro j sent ⟨⟩
  short := fun _ hj => absurd hj List.not_mem_nil
  distinct := List.nodup_nil
  chunkSize := rfl
  cut := rfl
  dma := rfl
  busy := fun _ => ⟨rfl, rfl⟩
  overtaken := by
    rintro j sent _ ⟨⟩

variable [DecidableEq ι]

/-- A request of low priority that is about to send the chunk from byte `sent` on. -/
structure Takes (s : ArqState ι κ) (a : ArqPlan ι κ) (j : ArqJob ι κ) (sent : Nat) : Prop where
  waitingHi : Waits s.task s.requestQueueHi a.waitingHi
  waitingLo : Waits s.task s.requestQueueLo a.waitingLo
  pendingHi : s.requestPendingHi = none ∧ a.pendingHi = none
  pendingLo : s.requestPendingLo = some j.task ∧ a.pendingLo = some (j, sent)
  callbacks : s.callbackHi = none ∧ s.callbackLo = none
  asks : Asks (s.task j.task) j sent
  short : ∀ k ∈ a.low, k.length < 0x100000000
  distinct : a.tasks.Nodup
  chunkSize : s.chunkSize = arqChunkSizeDefault
  engine : s.dma = none ∧ s.cut = []

/-- The next chunk of the request in transfer. -/
theorem Takes.serve {j : ArqJob ι κ} {sent : Nat} (h : Takes s a j sent) :
    Stands (arqServeLo s) a ∧ (arqServeLo s).dma = a.dma := by
  obtain ⟨hwaitHi, hwaitLo⟩ := pendingLo_apart h.distinct h.pendingLo.2
  have hlength : (s.task j.task).length = j.length - sent := h.asks.length
  have hlt : j.length < 0x100000000 := h.short j (by rw [low_some h.pendingLo.2]; simp)
  -- Whichever chunk it is, the fields are moved on in the same way.
  obtain ⟨s₁, hs₁⟩ : ∃ s₁, s₁ =
      if (s.task j.task).length ≤ s.chunkSize then
        { arStartDma s ((s.task j.task).dma (s.task j.task).length) with
          callbackLo := some (s.task j.task).callback }
      else
        arStartDma s ((s.task j.task).dma s.chunkSize) := ⟨_, rfl⟩
  have hserve : arqServeLo s = s₁.setTask j.task
      { s.task j.task with
        length := wordSub (s.task j.task).length arqChunkSizeDefault
        source := word ((s.task j.task).source + arqChunkSizeDefault)
        dest := word ((s.task j.task).dest + arqChunkSizeDefault) } := by
    rw [hs₁]
    simp only [arqServeLo, h.pendingLo.1, h.chunkSize]
    split <;> simp only [h.chunkSize, arStartDma]
  have hfields : s₁.task = s.task ∧ s₁.requestQueueHi = s.requestQueueHi ∧
      s₁.requestQueueLo = s.requestQueueLo ∧ s₁.requestPendingHi = s.requestPendingHi ∧
      s₁.requestPendingLo = s.requestPendingLo ∧ s₁.callbackHi = s.callbackHi ∧
      s₁.chunkSize = s.chunkSize ∧ s₁.cut = s.cut ++ s.dma.toList := by
    rw [hs₁]
    split <;> exact ⟨rfl, rfl, rfl, rfl, rfl, rfl, rfl, rfl⟩
  obtain ⟨htask, hqueueHi, hqueueLo, hpendingHi, hpendingLo, hcallbackHi, hchunk, hcut⟩ := hfields
  have hlast : (s.task j.task).length ≤ s.chunkSize ↔ j.Last sent := by
    rw [hlength, h.chunkSize]
    exact Iff.rfl
  have hcallbackLo : s₁.callbackLo = if j.Last sent then some j.callback else none := by
    rw [hs₁]
    by_cases hl : j.Last sent
    · rw [if_pos (hlast.2 hl), if_pos hl, ← h.asks.callback]
    · rw [if_neg (mt hlast.1 hl), if_neg hl]
      exact h.callbacks.2
  have hdma : s₁.dma = some (j.chunk sent) := by
    rw [hs₁, ArqJob.chunk]
    by_cases hl : j.Last sent
    · rw [if_pos (hlast.2 hl), if_pos hl, ← hlength, ← h.asks.dma]
      rfl
    · rw [if_neg (mt hlast.1 hl), if_neg hl, ← h.asks.dma, ← h.chunkSize]
      rfl
  have hplan : a.dma = some (j.chunk sent) := by
    rw [ArqPlan.dma, h.pendingHi.2, h.pendingLo.2]
    rfl
  rw [hserve, hplan]
  refine ⟨?_, hdma⟩
  constructor
  case waitingHi =>
    rw [ArqState.setTask]
    show Waits (Function.update s₁.task _ _) s₁.requestQueueHi _
    rw [htask, hqueueHi]
    exact h.waitingHi.update hwaitHi _
  case waitingLo =>
    show Waits (Function.update s₁.task _ _) s₁.requestQueueLo _
    rw [htask, hqueueLo]
    exact h.waitingLo.update hwaitLo _
  case pendingHi => exact hpendingHi.trans (by rw [h.pendingHi.1, h.pendingHi.2]; rfl)
  case pendingLo => exact hpendingLo.trans (by rw [h.pendingLo.1, h.pendingLo.2]; rfl)
  case callbackHi => exact hcallbackHi.trans (by rw [h.callbacks.1, h.pendingHi.2]; rfl)
  case callbackLo => exact hcallbackLo.trans (by rw [h.pendingLo.2]; rfl)
  case moved =>
    intro k n hk hmore
    rw [h.pendingLo.2] at hk
    cases hk
    show Asks (Function.update s₁.task _ _ _) _ _
    rw [Function.update_self]
    exact h.asks.move_on hmore hlt
  case short => exact h.short
  case distinct => exact h.distinct
  case chunkSize => exact hchunk.trans h.chunkSize
  case cut => exact hcut.trans (by rw [h.engine.1, h.engine.2]; rfl)

/-- The start of the next transfer, when the one before it has ended. -/
theorem Stands.start (h : Stands s a) (hhi : a.pendingHi = none) (hdma : s.dma = none)
    (hmore : ∀ j sent, a.pendingLo = some (j, sent) → ¬ j.Last sent) :
    Represents (arqStartNext s) a.start := by
  have hovertaken : ∀ j sent, a.start.pendingHi.isSome → a.start.pendingLo = some (j, sent) →
      ¬ j.Last sent := by
    intro j sent hsome hlo
    rcases start_cases hhi with ⟨k, waiting, _, hs⟩ | ⟨k, n, _, _, hs⟩ |
      ⟨k, waiting, _, _, _, hs⟩ | ⟨_, _, _, hs⟩ <;> rw [hs] at hsome hlo
    · exact hmore j sent hlo
    · simp [hhi] at hsome
    · simp [hhi] at hsome
    · simp [hhi] at hsome
  suffices hstands : Stands (arqStartNext s) a.start ∧ (arqStartNext s).dma = a.start.dma from
    ⟨hstands.1, hstands.2, start_busy hhi, hovertaken⟩
  have hpending : s.requestPendingHi = none := by
    rw [h.pendingHi, hhi]
    rfl
  have hcallback : s.callbackHi = none := by
    rw [h.callbackHi, hhi]
    rfl
  have hcallbackLo : s.callbackLo = none := by
    rw [h.callbackLo]
    cases hlo : a.pendingLo with
    | none => rfl
    | some q => exact if_neg (hmore q.1 q.2 hlo)
  -- Without a request of high priority the first half does nothing.
  have hnoHi : a.waitingHi = [] → arqStartNext s = arqServiceQueueLo s := by
    intro hw
    have hhead : s.requestQueueHi.head = none := by
      refine h.waitingHi.queued.head_none_iff.2 ?_
      rw [hw]
      rfl
    simp only [arqStartNext, arqPopTaskQueueHi, hhead, hpending, Option.isNone_none, if_true]
  have htasks := start_tasks hhi
  rcases start_cases hhi with ⟨j, waiting, hw, hs⟩ | ⟨j, sent, hw, hlo, hs⟩ |
    ⟨j, waiting, hw, hlo, hwl, hs⟩ | ⟨hw, hlo, hwl, hs⟩ <;> rw [hs]
  · obtain ⟨hstands, hstarted⟩ := h.pop hhi hdma hw
    have hnext : arqStartNext s = arqPopTaskQueueHi s := by
      simp only [arqStartNext, hstands.pendingHi, Option.map_some, Option.isNone_some,
        Bool.false_eq_true, if_false]
    rw [hnext]
    exact ⟨hstands, hstarted⟩
  · have htake : arqTakeLo s = s := by
      simp only [arqTakeLo, h.pendingLo, hlo, Option.map_some]
    rw [hnoHi hw, arqServiceQueueLo, htake]
    have htakes : Takes s { a with pendingLo := some (j, sent + arqChunkSizeDefault) } j
        (sent + arqChunkSizeDefault) := by
      refine ⟨h.waitingHi, h.waitingLo, ⟨hpending, hhi⟩, ⟨?_, rfl⟩, ⟨hcallback, hcallbackLo⟩,
        h.moved j sent hlo (hmore j sent hlo), ?_, ?_, h.chunkSize, ⟨hdma, h.cut⟩⟩
      · rw [h.pendingLo, hlo]
        rfl
      · intro k hk
        rw [low_some rfl] at hk
        refine h.short k ?_
        rw [low_some hlo]
        exact hk
      · rw [← hs, htasks]
        exact h.distinct
    exact htakes.serve
  · have hwait := h.waitingLo
    rw [hwl] at hwait
    obtain ⟨hhead, hasks, hrest⟩ := hwait.pop
    have htake : arqTakeLo s =
        { s with
          requestPendingLo := some j.task
          requestQueueLo := { s.requestQueueLo with head := (s.task j.task).next } } := by
      simp only [arqTakeLo, h.pendingLo, hlo, Option.map_none, hhead]
    rw [hnoHi hw, arqServiceQueueLo, htake]
    have htakes : Takes
        { s with
          requestPendingLo := some j.task
          requestQueueLo := { s.requestQueueLo with head := (s.task j.task).next } }
        { a with pendingLo := some (j, 0), waitingLo := waiting } j 0 := by
      refine ⟨h.waitingHi, hrest, ⟨hpending, hhi⟩, ⟨rfl, rfl⟩, ⟨hcallback, hcallbackLo⟩,
        hasks, ?_, ?_, h.chunkSize, ⟨hdma, h.cut⟩⟩
      · intro k hk
        rw [low_some rfl] at hk
        refine h.short k ?_
        rw [low_none hlo, hwl]
        exact hk
      · rw [← hs, htasks]
        exact h.distinct
    exact htakes.serve
  · have hhead : s.requestQueueLo.head = none := by
      refine h.waitingLo.queued.head_none_iff.2 ?_
      rw [hwl]
      rfl
    have hrest : arqStartNext s = s := by
      rw [hnoHi hw]
      simp only [arqServiceQueueLo, arqTakeLo, arqServeLo, h.pendingLo, hlo, Option.map_none,
        hhead]
    rw [hrest]
    refine ⟨h, ?_⟩
    rw [hdma, ArqPlan.dma, hhi, hlo]
    rfl

/-- A request that is not outstanding is queued. -/
theorem Stands.add (h : Stands s a) (hp : p.task ∉ a.tasks) :
    Stands (arqAddRequest s p) (a.add p) := by
  obtain ⟨task, htask⟩ : ∃ task, task = Function.update s.task p.task p.request := ⟨_, rfl⟩
  have hset : s.setTask p.task p.request = { s with task := task } := by
    rw [htask]
    rfl
  have hnotHi : p.task ∉ a.waitingHi.map ArqJob.task := fun hin => hp (mem_tasks_waitingHi hin)
  have hnotLo : p.task ∉ a.waitingLo.map ArqJob.task := fun hin => hp (mem_tasks_waitingLo hin)
  have hwaitHi : Waits task s.requestQueueHi a.waitingHi := htask ▸ h.waitingHi.update hnotHi _
  have hwaitLo : Waits task s.requestQueueLo a.waitingLo := htask ▸ h.waitingLo.update hnotLo _
  have hmoved : ∀ j sent, a.pendingLo = some (j, sent) → ¬ j.Last sent →
      Asks (task j.task) j (sent + arqChunkSizeDefault) := by
    intro j sent hlo hmore
    have hne : j.task ≠ p.task := by
      intro heq
      exact hp (heq ▸ mem_tasks_pendingLo hlo)
    rw [htask, Function.update_of_ne hne]
    exact h.moved j sent hlo hmore
  have hself : task p.task = p.request := by
    rw [htask, Function.update_self]
  have hasks : Asks (task p.job.task) p.job 0 := by
    show Asks (task p.task) p.job 0
    rw [hself]
    exact post_asks p
  have hnew : (task p.job.task).next = none := by
    show (task p.task).next = none
    rw [hself]
    rfl
  have hshort : ∀ j ∈ (a.add p).low, j.length < 0x100000000 := by
    intro j hj
    have hin : j ∈ a.low ∨ j = p.job := by
      rw [ArqPlan.low, add_pendingLo] at hj
      simp only [ArqPlan.add] at hj
      rw [ArqPlan.low]
      simp only [List.mem_append] at hj ⊢
      rcases hj with hj | hj
      · exact .inl (.inl hj)
      · split at hj
        · simp only [List.mem_append, List.mem_singleton] at hj
          tauto
        · split at hj <;> exact .inl (.inr hj)
    rcases hin with hin | rfl
    · exact h.short j hin
    · exact job_length_lt p
  have hdistinct := add_distinct h.distinct hp
  have hapart := waiting_apart h.distinct
  rw [arqAddRequest, hset]
  by_cases hlo : p.priority = arqPriorityLow
  · simp only [arqQueueTask, if_pos hlo]
    simp only [ArqPlan.add, if_pos hlo] at hshort hdistinct ⊢
    exact ⟨hwaitHi.enqueue_other hwaitLo hapart, hwaitLo.enqueue hasks hnew hnotLo,
      h.pendingHi, h.pendingLo, h.callbackHi, h.callbackLo,
      fun j sent hj hmore => (hmoved j sent hj hmore).enqueue hwaitLo, hshort, hdistinct,
      h.chunkSize, h.cut⟩
  · by_cases hhi : p.priority = arqPriorityHigh
    · simp only [arqQueueTask, if_neg hlo, if_pos hhi]
      simp only [ArqPlan.add, if_neg hlo, if_pos hhi] at hshort hdistinct ⊢
      exact ⟨hwaitHi.enqueue hasks hnew hnotHi,
        hwaitLo.enqueue_other hwaitHi fun t hl hh => hapart t hh hl,
        h.pendingHi, h.pendingLo, h.callbackHi, h.callbackLo,
        fun j sent hj hmore => (hmoved j sent hj hmore).enqueue hwaitHi, hshort, hdistinct,
        h.chunkSize, h.cut⟩
    · simp only [arqQueueTask, if_neg hlo, if_neg hhi]
      simp only [ArqPlan.add, if_neg hlo, if_neg hhi] at hshort hdistinct ⊢
      exact ⟨hwaitHi, hwaitLo, h.pendingHi, h.pendingLo, h.callbackHi, h.callbackLo, hmoved,
        hshort, hdistinct, h.chunkSize, h.cut⟩

/-- A post leaves what is in transfer. -/
theorem addRequest_fields (s : ArqState ι κ) (p : ArqPost ι κ) :
    (arqAddRequest s p).requestPendingHi = s.requestPendingHi ∧
      (arqAddRequest s p).requestPendingLo = s.requestPendingLo ∧
      (arqAddRequest s p).dma = s.dma := by
  rw [arqAddRequest, arqQueueTask]
  split
  · exact ⟨rfl, rfl, rfl⟩
  · split <;> exact ⟨rfl, rfl, rfl⟩

/-- A post carries out the plan. -/
theorem Represents.post (h : Represents s a) (hp : p.task ∉ a.tasks) :
    Represents (arqPostRequest s p) (a.post p) := by
  have hadd := h.toStands.add hp
  have hdma := (addRequest_fields s p).2.2
  rw [arqPostRequest, ArqPlan.post]
  by_cases hidle : a.Idle
  · have hidle' := add_idle_iff (p := p).2 hidle
    have hrest : s.dma = none := by
      rw [h.dma, ArqPlan.dma, hidle.1, hidle.2]
      rfl
    simp only [hadd.idle_iff.2 hidle', if_true, if_pos hidle]
    refine hadd.start hidle'.1 (hdma.trans hrest) fun j sent hlo => ?_
    rw [hidle'.2] at hlo
    cases hlo
  · have hbusy := mt (add_idle_iff (p := p)).1 hidle
    have hfalse := mt hadd.idle_iff.1 hbusy
    simp only [Bool.not_eq_true] at hfalse
    simp only [hfalse, if_neg hidle, Bool.false_eq_true, if_false]
    refine ⟨hadd, ?_, fun hidle' => absurd hidle' hbusy, fun j sent hhi hlo => ?_⟩
    · rw [hdma, h.dma, ArqPlan.dma, ArqPlan.dma, add_pendingHi, add_pendingLo]
    · rw [add_pendingHi] at hhi
      rw [add_pendingLo] at hlo
      exact h.overtaken j sent hhi hlo

/-- While something is pending the posts of a callback start nothing. -/
theorem arqCall_busy (f : ArqCallback κ) (posts : List (ArqPost ι κ))
    (hbusy : (s.requestPendingHi.isNone && s.requestPendingLo.isNone) = false) :
    arqCall s f posts = (f.posts posts).foldl arqAddRequest s := by
  cases f with
  | hack => rfl
  | user f =>
      simp only [arqCall, ArqCallback.posts]
      induction posts generalizing s with
      | nil => rfl
      | cons p posts ih =>
          obtain ⟨hhi, hlo, _⟩ := addRequest_fields s p
          have hpost : arqPostRequest s p = arqAddRequest s p := by
            simp only [arqPostRequest, hhi, hlo, hbusy, Bool.false_eq_true, if_false]
          rw [List.foldl_cons, List.foldl_cons, hpost]
          exact ih (by rw [hhi, hlo]; exact hbusy)

theorem add_clearHi (s : ArqState ι κ) (p : ArqPost ι κ) :
    arqAddRequest (clearHi s) p = clearHi (arqAddRequest s p) := by
  simp only [arqAddRequest, arqQueueTask]
  split
  · rfl
  · split <;> rfl

theorem add_clearLo (s : ArqState ι κ) (p : ArqPost ι κ) :
    arqAddRequest (clearLo s) p = clearLo (arqAddRequest s p) := by
  simp only [arqAddRequest, arqQueueTask]
  split
  · rfl
  · split <;> rfl

/-- The posts of a callback, once its request is off the plan. -/
theorem Stands.adds {posts : List (ArqPost ι κ)} (h : Stands s a) (hfree : FreePosts a posts) :
    Stands (posts.foldl arqAddRequest s) (posts.foldl ArqPlan.add a) ∧
      (posts.foldl arqAddRequest s).dma = s.dma ∧
      (posts.foldl ArqPlan.add a).pendingHi = a.pendingHi ∧
      (posts.foldl ArqPlan.add a).pendingLo = a.pendingLo := by
  induction posts generalizing s a with
  | nil => exact ⟨h, rfl, rfl, rfl⟩
  | cons p posts ih =>
      obtain ⟨hstands, hdma, hhi, hlo⟩ := ih (h.add hfree.1) hfree.2
      exact ⟨hstands, hdma.trans (addRequest_fields s p).2.2, hhi.trans add_pendingHi,
        hlo.trans add_pendingLo⟩

/-- The posts of an interrupt are of requests that are not outstanding then. -/
def FreeInterrupt (a : ArqPlan ι κ) (posts : List (ArqPost ι κ)) : Prop :=
  ∀ j a', a.completes = some (j, a') → FreePosts a' (j.callback.posts posts)

/-- The interrupt service routine carries out the plan, with the engine at rest. -/
theorem Stands.serviced {posts : List (ArqPost ι κ)}
    (h : Stands s a) (hrest : s.dma = none)
    (hovertaken : ∀ j sent, a.pendingHi.isSome → a.pendingLo = some (j, sent) → ¬ j.Last sent)
    (hfree : FreeInterrupt a posts) :
    Represents (arqInterruptServiceRoutine s posts) (a.interrupt posts) := by
  have hcallbackHi := h.callbackHi
  have hcallbackLo := h.callbackLo
  rw [arqInterruptServiceRoutine, ArqPlan.interrupt]
  cases hhi : a.pendingHi with
  | some j =>
      have hcompletes : a.completes = some (j, { a with pendingHi := none }) := by
        rw [ArqPlan.completes, hhi]
      have hbusy : (s.requestPendingHi.isNone && s.requestPendingLo.isNone) = false := by
        rw [h.pendingHi, hhi]
        rfl
      rw [hhi] at hcallbackHi
      simp only [hcallbackHi, Option.map_some, hcompletes, arqCall_busy j.callback posts hbusy]
      show Represents (arqStartNext (Aram.clearHi _)) _
      rw [← List.foldl_hom Aram.clearHi add_clearHi]
      obtain ⟨hstands, hdma, hpendingHi, hpendingLo⟩ :=
        h.clearHi.adds (hfree j _ hcompletes)
      refine hstands.start hpendingHi (hdma.trans hrest) fun k sent hlo => ?_
      rw [hpendingLo] at hlo
      exact hovertaken k sent (by rw [hhi]; rfl) hlo
  | none =>
      rw [hhi] at hcallbackHi
      cases hlo : a.pendingLo with
      | none =>
          have hcompletes : a.completes = none := by
            rw [ArqPlan.completes, hhi, hlo]
          rw [hlo] at hcallbackLo
          simp only [hcallbackHi, hcallbackLo, Option.map_none, Option.bind_none, hcompletes]
          refine h.start hhi hrest fun k sent hk => ?_
          rw [hlo] at hk
          cases hk
      | some q =>
          obtain ⟨j, sent⟩ := q
          rw [hlo, Option.bind_some] at hcallbackLo
          by_cases hl : j.Last sent
          · have hcompletes : a.completes = some (j, { a with pendingLo := none }) := by
              rw [ArqPlan.completes, hhi, hlo]
              exact if_pos hl
            have hbusy : (s.requestPendingHi.isNone && s.requestPendingLo.isNone) = false := by
              rw [h.pendingLo, hlo]
              exact Bool.and_false _
            rw [if_pos hl] at hcallbackLo
            simp only [hcallbackHi, hcallbackLo, Option.map_none, hcompletes,
              arqCall_busy j.callback posts hbusy]
            show Represents (arqStartNext (Aram.clearLo _)) _
            rw [← List.foldl_hom Aram.clearLo add_clearLo]
            obtain ⟨hstands, hdma, hpendingHi, hpendingLo⟩ :=
              h.clearLo.adds (hfree j _ hcompletes)
            refine hstands.start (hpendingHi.trans hhi) (hdma.trans hrest) fun k n hk => ?_
            rw [hpendingLo] at hk
            cases hk
          · have hcompletes : a.completes = none := by
              rw [ArqPlan.completes, hhi, hlo]
              exact if_neg hl
            rw [if_neg hl] at hcallbackLo
            simp only [hcallbackHi, hcallbackLo, Option.map_none, hcompletes]
            refine h.start hhi hrest fun k n hk => ?_
            rw [hlo] at hk
            cases hk
            exact hl

/-- The end of a transfer carries out the plan. -/
theorem Represents.interrupt {posts : List (ArqPost ι κ)}
    (h : Represents s a) (hfree : FreeInterrupt a posts) :
    Represents (arqDmaInterrupt s posts) (a.interrupt posts) :=
  h.toStands.at_rest.serviced rfl h.overtaken hfree

end States

end Aram
end Cubiboot
