import Cubiboot.Aram.ArqRefines
import Cubiboot.Foundations.Runs
import Mathlib.Data.List.Count

/-!
# Runs of the ARAM request queue

What the queue does for its clients, over every run of posts and of interrupts that end
transfers, with callbacks that may post.  A client posts a request again only when its
callback has been called for each post before.

`arq_exclusive` says that no transfer is cut off by another and that the engine rests only
when every callback has been called, `arq_in_order` that callbacks come in the order of the
posts of their priority, each when all of its request has been transferred and nothing
else, `arq_finishes` how many interrupts it takes until nothing is outstanding, and
`arq_high_first` that a request of high priority waits for one chunk of low priority at
most.
-/

namespace Cubiboot
namespace Aram

open Words Runs

universe u v

variable {ι : Type u} {κ : Type v}

/-- How many chunks a job is transferred in; an empty one takes a transfer too. -/
def ArqJob.chunkCount (j : ArqJob ι κ) : Nat :=
  (j.length - 1) / arqChunkSizeDefault + 1

/-- The first `n` chunks of a job. -/
def ArqJob.chunks (j : ArqJob ι κ) (n : Nat) : List Dma :=
  (List.range n).map fun i => j.chunk (i * arqChunkSizeDefault)

/-- The transfers of a job of low priority. -/
def ArqJob.pieces (j : ArqJob ι κ) : List Dma :=
  j.chunks j.chunkCount

/-- A place at which a chunk of the job begins. -/
def ArqJob.Begins (j : ArqJob ι κ) (sent i : Nat) : Prop :=
  sent = i * arqChunkSizeDefault ∧ (i = 0 ∨ sent < j.length)

section Chunks

variable {j : ArqJob ι κ} {sent i : Nat}

theorem chunks_succ (j : ArqJob ι κ) (n : Nat) :
    j.chunks (n + 1) = j.chunks n ++ [j.chunk (n * arqChunkSizeDefault)] := by
  rw [ArqJob.chunks, List.range_succ, List.map_append]
  rfl

@[simp] theorem chunks_length (j : ArqJob ι κ) (n : Nat) : (j.chunks n).length = n := by
  rw [ArqJob.chunks, List.length_map, List.length_range]

/-- The last chunk ends the job. -/
theorem ArqJob.Begins.last (h : j.Begins sent i) (hl : j.Last sent) : i + 1 = j.chunkCount := by
  obtain ⟨rfl, hi⟩ := h
  simp only [ArqJob.Last, ArqJob.chunkCount, arqChunkSizeDefault] at *
  omega

/-- Another chunk follows one that is not the last. -/
theorem ArqJob.Begins.next (h : j.Begins sent i) (hl : ¬ j.Last sent) :
    j.Begins (sent + arqChunkSizeDefault) (i + 1) ∧ i + 1 < j.chunkCount := by
  obtain ⟨rfl, hi⟩ := h
  simp only [ArqJob.Begins, ArqJob.Last, ArqJob.chunkCount, arqChunkSizeDefault] at *
  omega

theorem ArqJob.Begins.index (h : j.Begins sent i) : sent / arqChunkSizeDefault = i := by
  rw [h.1]
  exact Nat.mul_div_cancel _ (by decide)

theorem ArqJob.Begins.zero (j : ArqJob ι κ) : j.Begins 0 0 :=
  ⟨(Nat.zero_mul _).symm, .inl rfl⟩

end Chunks

/-- The queue, with what has been asked of it and what it has done. -/
structure ArqSystem (ι : Type u) (κ : Type v) where
  arq : ArqState ι κ
  posted : List (ArqPost ι κ)
  movedHi : List Dma
  movedLo : List Dma
  calledHi : List (ArqCallback κ × Option ι)
  calledLo : List (ArqCallback κ × Option ι)

/-- The jobs posted with a priority. -/
def ArqSystem.jobs (s : ArqSystem ι κ) (priority : Nat) : List (ArqJob ι κ) :=
  (s.posted.filter fun p => p.priority = priority).map ArqPost.job

/-- The call of its callback that a job asks for. -/
def ArqJob.call (j : ArqJob ι κ) : ArqCallback κ × Option ι :=
  (j.callback, some j.task)

/-- A transfer of high priority has ended. -/
def ArqSystem.endedHi (s : ArqSystem ι κ) (d : Dma) : ArqSystem ι κ :=
  { s with movedHi := s.movedHi ++ [d], calledHi := s.calledHi ++ (arqCalled s.arq).toList }

/-- A transfer of low priority has ended. -/
def ArqSystem.endedLo (s : ArqSystem ι κ) (d : Dma) : ArqSystem ι κ :=
  { s with movedLo := s.movedLo ++ [d], calledLo := s.calledLo ++ (arqCalled s.arq).toList }

/-- The transfer `d` has ended; it is that of the request pending with high priority, if any. -/
def ArqSystem.ended (s : ArqSystem ι κ) (d : Dma) : ArqSystem ι κ :=
  if s.arq.requestPendingHi.isSome then s.endedHi d else s.endedLo d

/-- What the callback that is called now posts, of `posts`. -/
def arqPosts (s : ArqState ι κ) (posts : List (ArqPost ι κ)) : List (ArqPost ι κ) :=
  match arqCalled s with
  | some (f, _) => f.posts posts
  | none => []

section Clients

variable [DecidableEq ι]

/-- The transfer `d` has ended, and the interrupt has been served. -/
def ArqSystem.served (s : ArqSystem ι κ) (d : Dma) (posts : List (ArqPost ι κ)) :
    ArqSystem ι κ :=
  { s.ended d with
    arq := arqDmaInterrupt s.arq posts
    posted := s.posted ++ arqPosts s.arq posts }

/-- The posts of a request that are to be answered. -/
def ArqSystem.postsOf (s : ArqSystem ι κ) (t : ι) : Nat :=
  ((s.jobs arqPriorityHigh ++ s.jobs arqPriorityLow).map ArqJob.task).count t

/-- The calls of the callbacks of a request. -/
def ArqSystem.callsOf (s : ArqSystem ι κ) (t : ι) : Nat :=
  ((s.calledHi ++ s.calledLo).map Prod.snd).count (some t)

/-- Every post of the request has been answered. -/
def ArqSystem.Free (s : ArqSystem ι κ) (t : ι) : Prop :=
  s.postsOf t = s.callsOf t

instance (s : ArqSystem ι κ) (t : ι) : Decidable (s.Free t) :=
  inferInstanceAs (Decidable (_ = _))

/-- Each post is of a request that is free then. -/
def ArqSystem.FreeEach (s : ArqSystem ι κ) : List (ArqPost ι κ) → Prop
  | [] => True
  | p :: posts => s.Free p.task ∧ FreeEach { s with posted := s.posted ++ [p] } posts

/-- What happens to the queue. -/
inductive ArqEvent (ι : Type u) (κ : Type v) where
  | post (p : ArqPost ι κ)
  /-- A transfer ends; the callback posts `posts` if one is called. -/
  | interrupt (posts : List (ArqPost ι κ))

/-- The steps of the queue and its clients. -/
inductive ArqStep : ArqSystem ι κ → ArqEvent ι κ → ArqSystem ι κ → Prop
  | post {s : ArqSystem ι κ} (p : ArqPost ι κ) (hfree : s.Free p.task) :
      ArqStep s (.post p)
        { s with arq := arqPostRequest s.arq p, posted := s.posted ++ [p] }
  | interrupt {s : ArqSystem ι κ} {d : Dma} (posts : List (ArqPost ι κ))
      (hdma : s.arq.dma = some d)
      (hfree : (s.ended d).FreeEach (arqPosts s.arq posts)) :
      ArqStep s (.interrupt posts) (s.served d posts)

/-- After `ARQInit`. -/
def ArqSystem.Starts (s : ArqSystem ι κ) : Prop :=
  ∃ task tailHi tailLo, s = ⟨arqInit task tailHi tailLo, [], [], [], [], []⟩

/-- The states that the queue reaches. -/
def ArqSystem.Reached (s : ArqSystem ι κ) : Prop :=
  Reachable ArqSystem.Starts (anyStep ArqStep) s

end Clients

/-- The chunks of the job of low priority in transfer that have been moved. -/
def ArqPlan.moved (a : ArqPlan ι κ) : List Dma :=
  match a.pendingLo with
  | none => []
  | some (j, sent) =>
      j.chunks (if a.pendingHi.isSome then sent / arqChunkSizeDefault + 1
        else sent / arqChunkSizeDefault)

/-- The same, when the last transfer has ended and the next has not been started. -/
def ArqPlan.movedAtRest (a : ArqPlan ι κ) : List Dma :=
  match a.pendingLo with
  | none => []
  | some (j, sent) => j.chunks (sent / arqChunkSizeDefault + 1)

/-- Chunks begin at multiples of the chunk size. -/
def ArqPlan.InChunks (a : ArqPlan ι κ) : Prop :=
  ∀ j sent, a.pendingLo = some (j, sent) → ∃ i, j.Begins sent i

/-- The history that belongs to a plan of which the chunks `moved` have been moved. -/
structure Accounts (s : ArqSystem ι κ) (a : ArqPlan ι κ) (moved : List Dma) : Prop where
  high : ∃ done, s.jobs arqPriorityHigh = done ++ a.high ∧
    s.calledHi = done.map ArqJob.call ∧ s.movedHi = done.map ArqJob.whole
  low : ∃ done, s.jobs arqPriorityLow = done ++ a.low ∧
    s.calledLo = done.map ArqJob.call ∧ s.movedLo = done.flatMap ArqJob.pieces ++ moved

/-- The invariant of the runs. -/
structure Serving [DecidableEq ι] (s : ArqSystem ι κ) (a : ArqPlan ι κ) : Prop where
  represents : Represents s.arq a
  inChunks : a.InChunks
  accounts : Accounts s a a.moved

section Accounting

variable {s : ArqSystem ι κ} {a : ArqPlan ι κ} {p : ArqPost ι κ} {moved : List Dma}

theorem jobs_concat (s : ArqSystem ι κ) (p : ArqPost ι κ) (priority : Nat) :
    ({ s with posted := s.posted ++ [p] } : ArqSystem ι κ).jobs priority =
      s.jobs priority ++ if p.priority = priority then [p.job] else [] := by
  rw [ArqSystem.jobs, ArqSystem.jobs, List.filter_append, List.map_append]
  by_cases h : p.priority = priority <;> simp [h]

theorem add_high (a : ArqPlan ι κ) (p : ArqPost ι κ) :
    (a.add p).high = a.high ++ if p.priority = arqPriorityHigh then [p.job] else [] := by
  rw [ArqPlan.high, add_pendingHi, ArqPlan.add]
  by_cases hlo : p.priority = arqPriorityLow
  · have hne : p.priority ≠ arqPriorityHigh := by
      rw [hlo]
      decide
    rw [if_pos hlo, if_neg hne, List.append_nil]
    rfl
  · rw [if_neg hlo]
    by_cases hhi : p.priority = arqPriorityHigh
    · rw [if_pos hhi, if_pos hhi, ArqPlan.high, List.append_assoc]
    · rw [if_neg hhi, if_neg hhi, List.append_nil]
      rfl

theorem add_low (a : ArqPlan ι κ) (p : ArqPost ι κ) :
    (a.add p).low = a.low ++ if p.priority = arqPriorityLow then [p.job] else [] := by
  rw [ArqPlan.low, add_pendingLo, ArqPlan.add]
  by_cases hlo : p.priority = arqPriorityLow
  · rw [if_pos hlo, if_pos hlo, ArqPlan.low, List.append_assoc]
  · rw [if_neg hlo, if_neg hlo, List.append_nil]
    split <;> rfl

/-- The history does not say how it is kept. -/
theorem Accounts.with_arq (h : Accounts s a moved) (arq : ArqState ι κ) :
    Accounts { s with arq := arq } a moved :=
  ⟨h.high, h.low⟩

/-- A post is accounted for. -/
theorem Accounts.add (h : Accounts s a moved) (p : ArqPost ι κ) :
    Accounts { s with posted := s.posted ++ [p] } (a.add p) moved := by
  obtain ⟨⟨doneHi, hjobsHi, hcalledHi, hmovedHi⟩, doneLo, hjobsLo, hcalledLo, hmovedLo⟩ := h
  refine ⟨⟨doneHi, ?_, hcalledHi, hmovedHi⟩, doneLo, ?_, hcalledLo, hmovedLo⟩
  · rw [jobs_concat, hjobsHi, add_high, List.append_assoc]
  · rw [jobs_concat, hjobsLo, add_low, List.append_assoc]

theorem Accounts.adds (h : Accounts s a moved) (posts : List (ArqPost ι κ)) :
    Accounts { s with posted := s.posted ++ posts } (posts.foldl ArqPlan.add a) moved := by
  induction posts generalizing s a with
  | nil =>
      rw [List.append_nil]
      exact h
  | cons p posts ih =>
      have hrest := ih (h.add p)
      simp only [List.append_assoc, List.singleton_append] at hrest
      exact hrest

/-- The start of a transfer moves nothing. -/
theorem Accounts.start (h : Accounts s a a.movedAtRest) (hhi : a.pendingHi = none)
    (hchunks : a.InChunks) (hmore : ∀ j sent, a.pendingLo = some (j, sent) → ¬ j.Last sent) :
    Accounts s a.start a.start.moved ∧ a.start.InChunks := by
  have hhigh := start_high hhi
  have hlow := start_low hhi
  suffices hmoved : a.start.moved = a.movedAtRest ∧ a.start.InChunks by
    refine ⟨⟨?_, ?_⟩, hmoved.2⟩
    · rw [hhigh]
      exact h.high
    · rw [hlow, hmoved.1]
      exact h.low
  rcases start_cases hhi with ⟨j, waiting, _, hs⟩ | ⟨j, sent, _, hlo, hs⟩ |
    ⟨j, waiting, _, hlo, _, hs⟩ | ⟨_, hlo, _, hs⟩ <;> rw [hs]
  · refine ⟨?_, hchunks⟩
    simp only [ArqPlan.moved, ArqPlan.movedAtRest, Option.isSome_some, if_true]
  · obtain ⟨i, hi⟩ := hchunks j sent hlo
    obtain ⟨hnext, _⟩ := hi.next (hmore j sent hlo)
    constructor
    · simp only [ArqPlan.moved, ArqPlan.movedAtRest, hhi, hlo, Option.isSome_none,
        Bool.false_eq_true, if_false, hnext.index, hi.index]
    · rintro k n hk
      cases hk
      exact ⟨_, hnext⟩
  · constructor
    · simp only [ArqPlan.moved, ArqPlan.movedAtRest, hhi, hlo, Option.isSome_none,
        Bool.false_eq_true, if_false, Nat.zero_div]
      rfl
    · rintro k n hk
      cases hk
      exact ⟨0, .zero _⟩
  · refine ⟨?_, hchunks⟩
    simp only [ArqPlan.moved, ArqPlan.movedAtRest, hlo]

/-- What a callback may post, and what the history is when it has. -/
theorem Accounts.called (posts : List (ArqPost ι κ))
    (h : Accounts s a a.movedAtRest) (hhi : a.pendingHi = none)
    (hchunks : a.InChunks) (hmore : ∀ j sent, a.pendingLo = some (j, sent) → ¬ j.Last sent) :
    Accounts { s with posted := s.posted ++ posts } (posts.foldl ArqPlan.add a).start
        (posts.foldl ArqPlan.add a).start.moved ∧
      (posts.foldl ArqPlan.add a).start.InChunks := by
  have hpending : (posts.foldl ArqPlan.add a).pendingHi = a.pendingHi ∧
      (posts.foldl ArqPlan.add a).pendingLo = a.pendingLo := by
    clear h hchunks hmore hhi
    induction posts generalizing a with
    | nil => exact ⟨rfl, rfl⟩
    | cons p posts ih => exact ⟨(ih).1.trans add_pendingHi, (ih).2.trans add_pendingLo⟩
  have hrest : a.movedAtRest = (posts.foldl ArqPlan.add a).movedAtRest := by
    rw [ArqPlan.movedAtRest, ArqPlan.movedAtRest, hpending.2]
  have hadds := h.adds posts
  rw [hrest] at hadds
  refine hadds.start (hpending.1.trans hhi) ?_ ?_
  · intro j sent hlo
    exact hchunks j sent (hpending.2 ▸ hlo)
  · intro j sent hlo
    exact hmore j sent (hpending.2 ▸ hlo)

section Free

variable [DecidableEq ι]

/-- The posts to be answered are those outstanding. -/
theorem Accounts.postsOf (h : Accounts s a moved) (t : ι) :
    s.postsOf t = s.callsOf t + a.tasks.count t := by
  obtain ⟨⟨doneHi, hjobsHi, hcalledHi, _⟩, doneLo, hjobsLo, hcalledLo, _⟩ := h
  have hcall : ∀ done : List (ArqJob ι κ),
      ((done.map ArqJob.call).map Prod.snd).count (some t) =
        (done.map ArqJob.task).count t := by
    intro done
    rw [List.map_map]
    have hsome : Prod.snd ∘ (ArqJob.call : ArqJob ι κ → _) = some ∘ ArqJob.task := rfl
    rw [hsome, ← List.map_map]
    exact List.count_map_of_injective _ _ (Option.some_injective ι) t
  rw [ArqSystem.postsOf, ArqSystem.callsOf, ArqPlan.tasks, hjobsHi, hjobsLo, hcalledHi,
    hcalledLo]
  simp only [List.map_append, List.count_append, hcall]
  omega

theorem Accounts.free_iff (h : Accounts s a moved) (t : ι) : s.Free t ↔ t ∉ a.tasks := by
  rw [ArqSystem.Free, h.postsOf t, Nat.add_eq_left, List.count_eq_zero]

theorem Accounts.freeEach (h : Accounts s a moved) {posts : List (ArqPost ι κ)}
    (hfree : s.FreeEach posts) : FreePosts a posts := by
  induction posts generalizing s a with
  | nil => trivial
  | cons p posts ih => exact ⟨(h.free_iff _).1 hfree.1, ih (h.add p) hfree.2⟩

/-- A post is one step of the plan. -/
theorem Serving.post (h : Serving s a) (hfree : s.Free p.task) :
    Serving { s with arq := arqPostRequest s.arq p, posted := s.posted ++ [p] } (a.post p) := by
  have hadd := h.accounts.add p
  have hplan := h.represents.post ((h.accounts.free_iff _).1 hfree)
  rw [ArqPlan.post] at hplan ⊢
  by_cases hidle : a.Idle
  · rw [if_pos hidle] at hplan ⊢
    have hidle' := add_idle_iff (p := p).2 hidle
    have hrest : a.moved = (a.add p).movedAtRest := by
      rw [ArqPlan.moved, ArqPlan.movedAtRest, hidle.2, hidle'.2]
    rw [hrest] at hadd
    have hnone : ∀ j sent, (a.add p).pendingLo ≠ some (j, sent) := by
      intro j sent hlo
      rw [hidle'.2] at hlo
      cases hlo
    obtain ⟨haccounts, hchunks⟩ := hadd.start hidle'.1
      (fun j sent hlo => absurd hlo (hnone j sent))
      (fun j sent hlo => absurd hlo (hnone j sent))
    exact ⟨hplan, hchunks, haccounts.with_arq _⟩
  · rw [if_neg hidle] at hplan ⊢
    refine ⟨hplan, ?_, ?_⟩
    · intro j sent hlo
      rw [add_pendingLo] at hlo
      exact h.inChunks j sent hlo
    · have hmoved : (a.add p).moved = a.moved := by
        rw [ArqPlan.moved, ArqPlan.moved, add_pendingHi, add_pendingLo]
      rw [hmoved]
      exact hadd.with_arq _

/-- The end of a transfer that completes no request. -/
theorem Serving.ended_part (h : Serving s a) {d : Dma} (hdma : s.arq.dma = some d)
    (hnone : a.completes = none) :
    a.pendingHi = none ∧ (∀ j sent, a.pendingLo = some (j, sent) → ¬ j.Last sent) ∧
      Accounts (s.ended d) a a.movedAtRest := by
  rw [ArqPlan.completes] at hnone
  have hd := h.represents.dma
  rw [hdma, ArqPlan.dma] at hd
  cases hhi : a.pendingHi with
  | some j =>
      rw [hhi] at hnone
      cases hnone
  | none =>
      rw [hhi] at hnone hd
      cases hlo : a.pendingLo with
      | none =>
          rw [hlo] at hd
          cases hd
      | some q =>
          obtain ⟨j, sent⟩ := q
          rw [hlo] at hnone hd
          have hmore : ¬ j.Last sent := by
            intro hl
            simp only [if_pos hl] at hnone
            cases hnone
          refine ⟨rfl, fun k n hk => ?_, ?_⟩
          · cases hk
            exact hmore
          · have hcalled : arqCalled s.arq = none := by
              rw [h.represents.called, ArqPlan.completes, hhi, hlo]
              simp only [if_neg hmore, Option.map_none]
            have hpending : s.arq.requestPendingHi.isSome = false := by
              rw [h.represents.pendingHi, hhi]
              rfl
            obtain ⟨doneLo, hjobsLo, hcalledLo, hmovedLo⟩ := h.accounts.low
            rw [ArqSystem.ended, hpending, if_neg Bool.false_ne_true]
            refine ⟨h.accounts.high, doneLo, hjobsLo, ?_, ?_⟩
            · show s.calledLo ++ (arqCalled s.arq).toList = _
              rw [hcalled, hcalledLo]
              exact List.append_nil _
            · show s.movedLo ++ [d] = _
              obtain ⟨i, hi⟩ := h.inChunks j sent hlo
              rw [hmovedLo, List.append_assoc, ArqPlan.moved, ArqPlan.movedAtRest, hhi, hlo]
              simp only [Option.isSome_none, Bool.false_eq_true, if_false]
              rw [chunks_succ, hi.index, ← hi.1, Option.some.inj hd]

/-- The end of a transfer that completes a request. -/
theorem Serving.ended_whole (h : Serving s a) {d : Dma} (hdma : s.arq.dma = some d)
    {j : ArqJob ι κ} {a' : ArqPlan ι κ} (hsome : a.completes = some (j, a')) :
    a'.pendingHi = none ∧ (∀ k sent, a'.pendingLo = some (k, sent) → ¬ k.Last sent) ∧
      a'.InChunks ∧ Accounts (s.ended d) a' a'.movedAtRest := by
  have hcalled : (arqCalled s.arq).toList = [j.call] := by
    rw [h.represents.called, hsome]
    rfl
  rw [ArqPlan.completes] at hsome
  have hd := h.represents.dma
  rw [hdma, ArqPlan.dma] at hd
  obtain ⟨⟨doneHi, hjobsHi, hcalledHi, hmovedHi⟩, doneLo, hjobsLo, hcalledLo, hmovedLo⟩ :=
    h.accounts
  cases hhi : a.pendingHi with
  | some k =>
      rw [hhi] at hsome hd
      obtain ⟨rfl, rfl⟩ : k = j ∧ ({ a with pendingHi := none } : ArqPlan ι κ) = a' :=
        Prod.mk.inj (Option.some.inj hsome)
      have hpending : s.arq.requestPendingHi.isSome = true := by
        rw [h.represents.pendingHi, hhi]
        rfl
      refine ⟨rfl, fun m sent hlo => ?_, h.inChunks, ?_⟩
      · exact h.represents.overtaken m sent (by rw [hhi]; rfl) hlo
      · rw [ArqSystem.ended, if_pos hpending]
        refine ⟨⟨doneHi ++ [k], ?_, ?_, ?_⟩, doneLo, hjobsLo, hcalledLo, ?_⟩
        · show s.jobs arqPriorityHigh = _
          rw [hjobsHi, high_some hhi, List.append_assoc]
          rfl
        · show s.calledHi ++ (arqCalled s.arq).toList = _
          rw [hcalled, hcalledHi, List.map_append]
          rfl
        · show s.movedHi ++ [d] = _
          rw [hmovedHi, List.map_append, Option.some.inj hd]
          rfl
        · show s.movedLo = _
          rw [hmovedLo, ArqPlan.moved, ArqPlan.movedAtRest, hhi]
          simp only [Option.isSome_some, if_true]
  | none =>
      rw [hhi] at hsome hd
      cases hlo : a.pendingLo with
      | none =>
          rw [hlo] at hd
          cases hd
      | some q =>
          obtain ⟨k, sent⟩ := q
          rw [hlo] at hsome hd
          have hl : k.Last sent := by
            by_contra hl
            simp only [if_neg hl] at hsome
            cases hsome
          simp only [if_pos hl] at hsome
          obtain ⟨rfl, rfl⟩ : k = j ∧ (⟨none, a.waitingHi, none, a.waitingLo⟩ : ArqPlan ι κ) = a' :=
            Prod.mk.inj (Option.some.inj hsome)
          have hpending : s.arq.requestPendingHi.isSome = false := by
            rw [h.represents.pendingHi, hhi]
            rfl
          obtain ⟨i, hi⟩ := h.inChunks k sent hlo
          have hmoved : a.moved = k.chunks i := by
            rw [ArqPlan.moved, hhi, hlo]
            simp only [Option.isSome_none, Bool.false_eq_true, if_false, hi.index]
          have hhigh : ArqPlan.high ⟨none, a.waitingHi, none, a.waitingLo⟩ = a.high := by
            rw [high_none hhi]
            rfl
          refine ⟨rfl, ?_, ?_, ?_⟩
          · rintro m n ⟨⟩
          · rintro m n ⟨⟩
          · rw [ArqSystem.ended, hpending, if_neg Bool.false_ne_true]
            refine ⟨⟨doneHi, ?_, hcalledHi, hmovedHi⟩, doneLo ++ [k], ?_, ?_, ?_⟩
            · rw [hhigh]
              exact hjobsHi
            · show s.jobs arqPriorityLow = _
              rw [hjobsLo, low_some hlo, List.append_assoc]
              rfl
            · show s.calledLo ++ (arqCalled s.arq).toList = _
              rw [hcalled, hcalledLo, List.map_append]
              rfl
            · show s.movedLo ++ [d] = _
              have hpiece : d = k.chunk (i * arqChunkSizeDefault) := by
                rw [← hi.1]
                exact Option.some.inj hd
              rw [hmovedLo, hmoved, List.flatMap_append, List.append_assoc, hpiece,
                ← chunks_succ, hi.last hl]
              simp [ArqPlan.movedAtRest, ArqJob.pieces]

/-- The end of a transfer is one step of the plan. -/
theorem Serving.interrupt {posts : List (ArqPost ι κ)} (h : Serving s a) {d : Dma}
    (hdma : s.arq.dma = some d) (hfree : (s.ended d).FreeEach (arqPosts s.arq posts)) :
    Serving (s.served d posts) (a.interrupt posts) := by
  have hposted : (s.ended d).posted = s.posted := by
    rw [ArqSystem.ended]
    split <;> rfl
  have hcalled := h.represents.called
  cases hcompletes : a.completes with
  | none =>
      obtain ⟨hhi, hmore, haccounts⟩ := h.ended_part hdma hcompletes
      have hposts : arqPosts s.arq posts = [] := by
        rw [arqPosts, hcalled, hcompletes]
        rfl
      have hplan : Represents (arqDmaInterrupt s.arq posts) (a.interrupt posts) := by
        refine h.represents.interrupt fun j a' hsome => ?_
        rw [hcompletes] at hsome
        cases hsome
      obtain ⟨hnew, hchunks⟩ := haccounts.start hhi h.inChunks hmore
      rw [ArqPlan.interrupt, hcompletes] at hplan ⊢
      rw [ArqSystem.served, hposts, List.append_nil, ← hposted]
      exact ⟨hplan, hchunks, hnew.with_arq _⟩
  | some q =>
      obtain ⟨j, a'⟩ := q
      obtain ⟨hhi, hmore, hin, haccounts⟩ := h.ended_whole hdma hcompletes
      have hposts : arqPosts s.arq posts = j.callback.posts posts := by
        rw [arqPosts, hcalled, hcompletes]
        rfl
      have hfreePosts := haccounts.freeEach hfree
      have hplan : Represents (arqDmaInterrupt s.arq posts) (a.interrupt posts) := by
        refine h.represents.interrupt fun k b hsome => ?_
        rw [hcompletes] at hsome
        cases hsome
        rw [← hposts]
        exact hfreePosts
      obtain ⟨hnew, hchunks⟩ :=
        Accounts.called (arqPosts s.arq posts) haccounts hhi hin hmore
      rw [ArqPlan.interrupt, hcompletes] at hplan ⊢
      rw [hposts] at hnew hchunks
      rw [hposted] at hnew
      rw [ArqSystem.served, hposts]
      exact ⟨hplan, hchunks, hnew.with_arq _⟩

/-- Every state reached has a plan. -/
theorem ArqSystem.Reached.serving (h : s.Reached) : ∃ a, Serving s a := by
  refine @Reachable.invariant _ _ _ s (fun s => ∃ a, Serving s a) h ?_ ?_
  · rintro s ⟨task, tailHi, tailLo, rfl⟩
    refine ⟨ArqPlan.empty, represents_init task tailHi tailLo, ?_, ?_, ?_⟩
    · rintro j sent ⟨⟩
    · exact ⟨[], rfl, rfl, rfl⟩
    · exact ⟨[], rfl, rfl, rfl⟩
  · rintro s s' ⟨a, ha⟩ ⟨e, hstep⟩
    cases hstep with
    | post p hfree => exact ⟨_, ha.post hfree⟩
    | interrupt posts hdma hfree => exact ⟨_, ha.interrupt hdma hfree⟩

end Free

end Accounting

/-- A queue that nothing has been asked of. -/
def sampleStart : ArqSystem Nat Unit :=
  ⟨arqInit (fun _ => ⟨none, 0, 0, 0, 0, 0, .hack⟩) none none, [], [], [], [], []⟩

/-- Two chunks of low priority. -/
def samplePost : ArqPost Nat Unit :=
  ⟨0, 0, arqTypeMramToAram, arqPriorityLow, 0x81000000, 0x4000, 5000, some ()⟩

/-- A request of high priority. -/
def urgentPost : ArqPost Nat Unit :=
  ⟨1, 0, arqTypeMramToAram, arqPriorityHigh, 0x80100000, 0x8000, 64, none⟩

/-- The first chunk is in transfer. -/
def sampleBusy : ArqSystem Nat Unit :=
  { sampleStart with arq := arqPostRequest sampleStart.arq samplePost, posted := [samplePost] }

/-- A request of high priority waits for it. -/
def sampleCrowded : ArqSystem Nat Unit :=
  { sampleBusy with
    arq := arqPostRequest sampleBusy.arq urgentPost
    posted := [samplePost, urgentPost] }

theorem sampleCrowded_reached : sampleCrowded.Reached := by
  have hstart : sampleStart.Reached := .start ⟨_, _, _, rfl⟩
  have hbusy : sampleBusy.Reached := hstart.step ⟨.post samplePost, .post samplePost (by decide)⟩
  exact hbusy.step ⟨.post urgentPost, .post urgentPost (by decide)⟩

section Clients

variable [DecidableEq ι] {s s' : ArqSystem ι κ} {a : ArqPlan ι κ}

/-- Nothing is in transfer exactly when nothing is outstanding. -/
theorem Serving.rest_iff (h : Serving s a) : s.arq.dma = none ↔ a.tasks = [] := by
  rw [h.represents.dma, ArqPlan.tasks, List.map_eq_nil_iff, List.append_eq_nil_iff]
  constructor
  · intro hdma
    have hidle : a.Idle := by
      cases hhi : a.pendingHi with
      | some j =>
          rw [ArqPlan.dma, hhi] at hdma
          cases hdma
      | none =>
          rw [ArqPlan.dma, hhi] at hdma
          exact ⟨hhi, Option.map_eq_none_iff.1 hdma⟩
    obtain ⟨hhi, hlo⟩ := h.represents.busy hidle
    rw [high_none hidle.1, low_none hidle.2]
    exact ⟨hhi, hlo⟩
  · rintro ⟨hhigh, hlow⟩
    have hhi : a.pendingHi = none := by
      cases hhi : a.pendingHi with
      | none => rfl
      | some j =>
          rw [high_some hhi] at hhigh
          cases hhigh
    have hlo : a.pendingLo = none := by
      cases hlo : a.pendingLo with
      | none => rfl
      | some q =>
          rw [@low_some ι κ a q.1 q.2 hlo] at hlow
          cases hlow
    rw [ArqPlan.dma, hhi, hlo]
    rfl

/-- The engine rests when every post has been answered, and only then. -/
theorem ArqSystem.Reached.rest_iff_free (h : s.Reached) : s.arq.dma = none ↔ ∀ t, s.Free t := by
  obtain ⟨a, ha⟩ := h.serving
  rw [ha.rest_iff, List.eq_nil_iff_forall_not_mem]
  exact forall_congr' fun t => (ha.accounts.free_iff t).symm

/--
No transfer is started while another is in flight, and the engine rests only when every
post has been answered.
-/
theorem arq_exclusive (h : s.Reached) :
    s.arq.cut = [] ∧ (s.arq.dma = none ↔ ∀ t, s.Free t) := by
  obtain ⟨a, ha⟩ := h.serving
  exact ⟨ha.represents.cut, h.rest_iff_free⟩

theorem arq_exclusive_crowded :
    sampleCrowded.arq.cut = [] ∧ (sampleCrowded.arq.dma = none ↔ ∀ t, sampleCrowded.Free t) :=
  arq_exclusive sampleCrowded_reached

/-- How much of the job of low priority in transfer has been moved. -/
theorem Serving.moved_short (h : Serving s a) :
    (a.pendingLo = none ∧ a.moved = []) ∨
      ∃ j rest n, a.low = j :: rest ∧ a.moved = j.chunks n ∧ n < j.chunkCount := by
  cases hlo : a.pendingLo with
  | none => exact .inl ⟨rfl, by rw [ArqPlan.moved, hlo]⟩
  | some q =>
      obtain ⟨j, sent⟩ := q
      obtain ⟨i, hi⟩ := h.inChunks j sent hlo
      have hcount : i < j.chunkCount := by
        obtain ⟨rfl, hpos⟩ := hi
        simp only [ArqJob.chunkCount, arqChunkSizeDefault] at *
        omega
      refine .inr ⟨j, a.waitingLo, _, low_some hlo, by rw [ArqPlan.moved, hlo], ?_⟩
      rw [hi.index]
      split
      · rename_i hhi
        exact (hi.next (h.represents.overtaken j sent hhi hlo)).2
      · exact hcount

/--
Callbacks are called in the order in which the requests of their priority were posted.
The transfers of high priority are those of the requests that have been answered; of low
priority there are the chunks of these requests in order, and some of the next one but
not all.
-/
theorem arq_in_order (h : s.Reached) :
    (s.calledHi <+: (s.jobs arqPriorityHigh).map ArqJob.call ∧
      s.movedHi = ((s.jobs arqPriorityHigh).take s.calledHi.length).map ArqJob.whole) ∧
    s.calledLo <+: (s.jobs arqPriorityLow).map ArqJob.call ∧
      ∃ n, s.movedLo = ((s.jobs arqPriorityLow).take s.calledLo.length).flatMap ArqJob.pieces ++
          (((s.jobs arqPriorityLow)[s.calledLo.length]?).elim [] fun j => j.chunks n) ∧
        ∀ j, (s.jobs arqPriorityLow)[s.calledLo.length]? = some j → n < j.chunkCount := by
  obtain ⟨a, ha⟩ := h.serving
  obtain ⟨⟨doneHi, hjobsHi, hcalledHi, hmovedHi⟩, doneLo, hjobsLo, hcalledLo, hmovedLo⟩ :=
    ha.accounts
  have hlenHi : s.calledHi.length = doneHi.length := by
    rw [hcalledHi, List.length_map]
  have hlenLo : s.calledLo.length = doneLo.length := by
    rw [hcalledLo, List.length_map]
  refine ⟨⟨?_, ?_⟩, ?_, ?_⟩
  · rw [hcalledHi, hjobsHi, List.map_append]
    exact List.prefix_append _ _
  · rw [hlenHi, hjobsHi, List.take_left, hmovedHi]
  · rw [hcalledLo, hjobsLo, List.map_append]
    exact List.prefix_append _ _
  · rw [hlenLo, hjobsLo, List.take_left, hmovedLo, List.getElem?_append_right (Nat.le_refl _),
      Nat.sub_self]
    rcases ha.moved_short with ⟨hlo, hmoved⟩ | ⟨j, rest, n, hlow, hmoved, hlt⟩
    · refine ⟨0, ?_, fun j _ => Nat.succ_pos _⟩
      rw [hmoved]
      cases a.low <;> rfl
    · refine ⟨n, ?_, fun k hk => ?_⟩
      · rw [hmoved, hlow]
        rfl
      · rw [hlow] at hk
        cases hk
        exact hlt

/-- The transfers that are still to be made. -/
def ArqSystem.left (s : ArqSystem ι κ) : Nat :=
  ((s.jobs arqPriorityHigh).length - s.movedHi.length) +
    (((s.jobs arqPriorityLow).flatMap ArqJob.pieces).length - s.movedLo.length)

/-- The end of the transfer in flight, if there is one, with a callback that posts nothing. -/
def ArqSystem.quiet (s : ArqSystem ι κ) : ArqSystem ι κ :=
  match s.arq.dma with
  | none => s
  | some d => s.served d []

/-- What is left, seen from the plan. -/
theorem Serving.left_eq (h : Serving s a) :
    s.left + a.moved.length = a.high.length + (a.low.flatMap ArqJob.pieces).length := by
  obtain ⟨⟨doneHi, hjobsHi, _, hmovedHi⟩, doneLo, hjobsLo, _, hmovedLo⟩ := h.accounts
  have hshort : a.moved.length ≤ (a.low.flatMap ArqJob.pieces).length := by
    rcases h.moved_short with ⟨_, hmoved⟩ | ⟨j, rest, n, hlow, hmoved, hlt⟩
    · rw [hmoved]
      exact Nat.zero_le _
    · rw [hmoved, hlow, List.flatMap_cons, List.length_append, ArqJob.pieces, chunks_length,
        chunks_length]
      omega
  rw [ArqSystem.left, hjobsHi, hjobsLo, hmovedHi, hmovedLo]
  simp only [List.flatMap_append, List.length_append, List.length_map]
  omega

/-- The end of a transfer leaves one less. -/
theorem left_served {d : Dma} (h : s.Reached) (hdma : s.arq.dma = some d) :
    (s.served d []).Reached ∧ (s.served d []).left + 1 = s.left := by
  obtain ⟨a, ha⟩ := h.serving
  have hposts : arqPosts s.arq [] = [] := by
    rw [arqPosts]
    split
    · rename_i f _ _
      cases f <;> rfl
    · rfl
  have hfree : (s.ended d).FreeEach (arqPosts s.arq []) := by
    rw [hposts]
    trivial
  refine ⟨h.step ⟨.interrupt [], .interrupt [] hdma hfree⟩, ?_⟩
  have hposted : (s.served d []).posted = s.posted := by
    rw [ArqSystem.served, hposts, List.append_nil]
  have hjobs : ∀ priority, (s.served d []).jobs priority = s.jobs priority := by
    intro priority
    rw [ArqSystem.jobs, hposted, ArqSystem.jobs]
  have hleft := ha.left_eq
  obtain ⟨⟨doneHi, hjobsHi, _, hmovedHi⟩, doneLo, hjobsLo, _, hmovedLo⟩ := ha.accounts
  have hd := ha.represents.dma
  rw [hdma, ArqPlan.dma] at hd
  have hnew : (s.served d []).left =
      ((s.jobs arqPriorityHigh).length - (s.ended d).movedHi.length) +
        (((s.jobs arqPriorityLow).flatMap ArqJob.pieces).length -
          (s.ended d).movedLo.length) := by
    rw [ArqSystem.left, hjobs, hjobs]
    rfl
  rw [hnew, ArqSystem.left, ArqSystem.ended, ha.represents.pendingHi]
  cases hhi : a.pendingHi with
  | some j =>
      rw [Option.map_some, Option.isSome_some, if_pos rfl]
      show ((s.jobs _).length - (s.movedHi ++ [d]).length) +
        (_ - s.movedLo.length) + 1 = _
      have hlen : (s.jobs arqPriorityHigh).length = s.movedHi.length + a.high.length := by
        rw [hjobsHi, hmovedHi, List.length_append, List.length_map]
      rw [high_some hhi, List.length_cons] at hlen
      rw [List.length_append, List.length_singleton]
      omega
  | none =>
      rw [Option.map_none, Option.isSome_none, if_neg Bool.false_ne_true]
      show ((s.jobs _).length - s.movedHi.length) +
        (_ - (s.movedLo ++ [d]).length) + 1 = _
      have hmore : s.movedLo.length < ((s.jobs arqPriorityLow).flatMap ArqJob.pieces).length := by
        rw [hjobsLo, hmovedLo, List.flatMap_append, List.length_append, List.length_append]
        rcases ha.moved_short with ⟨hlo, _⟩ | ⟨j, rest, n, hlow, hmoved, hlt⟩
        · rw [hhi, hlo] at hd
          cases hd
        · rw [hmoved, hlow, List.flatMap_cons, List.length_append, ArqJob.pieces, chunks_length,
            chunks_length]
          omega
      rw [List.length_append, List.length_singleton]
      omega

/-- Two interrupts later a chunk has been moved, and the request of high priority answered. -/
theorem arq_in_order_crowded :
    let s := sampleCrowded.quiet.quiet
    s.calledHi.length = 1 ∧ s.calledLo.length = 0 ∧ s.movedLo.length = 1 ∧
      s.calledHi = (s.jobs arqPriorityHigh).map ArqJob.call ∧
      s.movedHi = (s.jobs arqPriorityHigh).map ArqJob.whole := by
  have hreached : sampleCrowded.quiet.quiet.Reached :=
    (left_served (left_served sampleCrowded_reached rfl).1 rfl).1
  obtain ⟨⟨hcalled, hmoved⟩, -⟩ := arq_in_order hreached
  have hjobs : (sampleCrowded.quiet.quiet.jobs arqPriorityHigh).length = 1 := by
    decide
  have hone : sampleCrowded.quiet.quiet.calledHi.length = 1 := by
    decide
  refine ⟨hone, by decide, by decide, hcalled.eq_of_length ?_, ?_⟩
  · rw [hone, List.length_map, hjobs]
  · rw [hmoved, hone, List.take_of_length_le hjobs.le]

/-- The engine rests when nothing is left. -/
theorem rest_of_left (h : s.Reached) : s.arq.dma = none ↔ s.left = 0 := by
  constructor
  · intro hdma
    obtain ⟨a, ha⟩ := h.serving
    have htasks := ha.rest_iff.1 hdma
    rw [ArqPlan.tasks, List.map_eq_nil_iff, List.append_eq_nil_iff] at htasks
    have hleft := ha.left_eq
    rw [htasks.1, htasks.2] at hleft
    simp only [List.flatMap_nil, List.length_nil] at hleft
    omega
  · intro hleft
    cases hdma : s.arq.dma with
    | none => rfl
    | some d =>
        have hlt := (left_served h hdma).2
        omega

/--
When nothing more is posted, as many interrupts come as there are transfers left, and then
every post has been answered.
-/
theorem arq_finishes (h : s.Reached) :
    (∀ m < s.left, (ArqSystem.quiet^[m] s).arq.dma ≠ none) ∧
      (ArqSystem.quiet^[s.left] s).arq.dma = none ∧
      ∀ t, (ArqSystem.quiet^[s.left] s).Free t := by
  induction hn : s.left generalizing s with
  | zero =>
      have hrest := (rest_of_left h).2 hn
      exact ⟨fun m hm => absurd hm (Nat.not_lt_zero m), hrest, h.rest_iff_free.1 hrest⟩
  | succ n ih =>
      cases hdma : s.arq.dma with
      | none =>
          have hzero := (rest_of_left h).1 hdma
          omega
      | some d =>
          obtain ⟨hreached, hleft⟩ := left_served h hdma
          have hquiet : s.quiet = s.served d [] := by
            rw [ArqSystem.quiet, hdma]
          obtain ⟨hbusy, hend⟩ := ih hreached (by omega)
          refine ⟨fun m hm => ?_, ?_⟩
          · cases m with
            | zero =>
                rw [Function.iterate_zero, id, hdma]
                exact Option.some_ne_none d
            | succ m =>
                rw [Function.iterate_succ_apply, hquiet]
                exact hbusy m (Nat.lt_of_succ_lt_succ hm)
          · rw [Function.iterate_succ_apply, hquiet]
            exact hend

theorem arq_finishes_crowded :
    sampleCrowded.left = 3 ∧ ∀ t, (ArqSystem.quiet^[sampleCrowded.left] sampleCrowded).Free t :=
  ⟨by decide, (arq_finishes sampleCrowded_reached).2.2⟩

/-- A run with `n` interrupts in it. -/
inductive ArqRun : ArqSystem ι κ → Nat → ArqSystem ι κ → Prop
  | refl (s : ArqSystem ι κ) : ArqRun s 0 s
  | post {s s' s'' : ArqSystem ι κ} {n : Nat} {p : ArqPost ι κ} :
      ArqRun s n s' → ArqStep s' (.post p) s'' → ArqRun s n s''
  | interrupt {s s' s'' : ArqSystem ι κ} {n : Nat} {posts : List (ArqPost ι κ)} :
      ArqRun s n s' → ArqStep s' (.interrupt posts) s'' → ArqRun s (n + 1) s''

theorem ArqRun.reached {n : Nat} (hrun : ArqRun s n s') (h : s.Reached) : s'.Reached := by
  induction hrun with
  | refl => exact h
  | post _ hstep ih => exact ih.step ⟨_, hstep⟩
  | interrupt _ hstep ih => exact ih.step ⟨_, hstep⟩

/-- One of the first `bound` requests of high priority is in transfer, or all are answered. -/
def ArqSystem.Favours (s : ArqSystem ι κ) (bound : Nat) : Prop :=
  s.calledHi.length < bound → s.arq.requestPendingHi.isSome

/-- After an interrupt no request of high priority waits for one of low priority. -/
theorem interrupt_waits {posts : List (ArqPost ι κ)} (h : Serving s a) {d : Dma}
    (hdma : s.arq.dma = some d) (hpending : (a.interrupt posts).pendingHi = none) :
    (a.interrupt posts).waitingHi = [] := by
  have hstart : ∀ b : ArqPlan ι κ, b.pendingHi = none → b.start.pendingHi = none →
      b.start.waitingHi = [] := by
    intro b hb hnone
    rcases start_cases hb with ⟨j, waiting, _, hs⟩ | ⟨j, sent, hw, _, hs⟩ |
      ⟨j, waiting, hw, _, _, hs⟩ | ⟨hw, _, _, hs⟩ <;> rw [hs] at hnone ⊢
    · cases hnone
    · exact hw
    · exact hw
    · exact hw
  have hadds : ∀ (posts : List (ArqPost ι κ)) (b : ArqPlan ι κ),
      (posts.foldl ArqPlan.add b).pendingHi = b.pendingHi := by
    intro posts b
    induction posts generalizing b with
    | nil => rfl
    | cons p posts ih => exact (ih _).trans add_pendingHi
  rw [ArqPlan.interrupt] at hpending ⊢
  cases hcompletes : a.completes with
  | none =>
      rw [hcompletes] at hpending
      exact hstart a (h.ended_part hdma hcompletes).1 hpending
  | some q =>
      rw [hcompletes] at hpending
      exact hstart _ ((hadds _ _).trans (h.ended_whole hdma hcompletes).1) hpending

/-- An interrupt lets the requests of high priority go first. -/
theorem favours_interrupt {posts : List (ArqPost ι κ)} (h : s.Reached)
    (hstep : ArqStep s (.interrupt posts) s') {bound : Nat}
    (hbound : bound ≤ (s.jobs arqPriorityHigh).length) :
    s'.Favours bound ∧
      s'.calledHi.length = s.calledHi.length + if s.arq.requestPendingHi.isSome then 1 else 0 := by
  obtain ⟨a, ha⟩ := h.serving
  cases hstep with
  | @interrupt d _ hdma hfree =>
      have ha' := ha.interrupt hdma hfree
      obtain ⟨⟨doneHi, hjobsHi, hcalledHi, _⟩, _⟩ := ha'.accounts
      refine ⟨fun hlt => ?_, ?_⟩
      · -- A request among the first `bound` is outstanding, so one is in transfer.
        have hmore : ((s.served d posts).jobs arqPriorityHigh).length =
            (s.jobs arqPriorityHigh).length +
              (((arqPosts s.arq posts).filter fun p => p.priority = arqPriorityHigh).map
                ArqPost.job).length := by
          rw [ArqSystem.jobs, ArqSystem.served]
          simp only [List.filter_append, List.map_append, List.length_append, ArqSystem.jobs]
        have hhigh : (a.interrupt posts).high ≠ [] := by
          intro hnil
          rw [hnil, List.append_nil] at hjobsHi
          rw [hcalledHi, List.length_map, ← hjobsHi] at hlt
          omega
        rw [ha'.represents.pendingHi, Option.isSome_map]
        cases hpending : (a.interrupt posts).pendingHi with
        | some j => rfl
        | none =>
            rw [high_none hpending] at hhigh
            exact absurd (interrupt_waits ha hdma hpending) hhigh
      · show (s.ended d).calledHi.length = _
        rw [ArqSystem.ended]
        split
        · rename_i hpending
          have hcalled : ∃ c, arqCalled s.arq = some c := by
            rw [ha.represents.pendingHi, Option.isSome_map] at hpending
            obtain ⟨j, hj⟩ := Option.isSome_iff_exists.1 hpending
            refine ⟨j.call, ?_⟩
            rw [ha.represents.called, ArqPlan.completes, hj]
            rfl
          obtain ⟨c, hc⟩ := hcalled
          rw [ArqSystem.endedHi, hc, List.length_append]
          rfl
        · rfl

/-- No post is forgotten. -/
theorem jobs_interrupt {posts : List (ArqPost ι κ)} (hstep : ArqStep s (.interrupt posts) s') :
    (s.jobs arqPriorityHigh).length ≤ (s'.jobs arqPriorityHigh).length := by
  cases hstep with
  | interrupt _ _ _ =>
      rw [ArqSystem.jobs, ArqSystem.jobs, ArqSystem.served, List.filter_append, List.map_append,
        List.length_append]
      exact Nat.le_add_right _ _

/-- A post leaves the request of high priority in transfer. -/
theorem post_pending {p : ArqPost ι κ} (h : s.Reached) (hfree : s.Free p.task)
    (hsome : s.arq.requestPendingHi.isSome) :
    (arqPostRequest s.arq p).requestPendingHi.isSome := by
  obtain ⟨a, ha⟩ := h.serving
  have ha' := ha.post hfree
  rw [ha.represents.pendingHi, Option.isSome_map] at hsome
  have hbusy : ¬ a.Idle := by
    intro hidle
    rw [hidle.1] at hsome
    cases hsome
  have hpending : (a.post p).pendingHi = a.pendingHi := by
    rw [ArqPlan.post, if_neg hbusy, add_pendingHi]
  rw [ha'.represents.pendingHi, Option.isSome_map, hpending]
  exact hsome

/--
A request of high priority waits for the transfer in flight and for those of high priority
that were posted before it: whatever else is posted, after `n` interrupts `n - 1` of the
requests of high priority that were outstanding have been answered, or all of them.
-/
theorem arq_high_first {n : Nat} (h : s.Reached) (hrun : ArqRun s n s') :
    min (s.jobs arqPriorityHigh).length (s.calledHi.length + (n - 1)) ≤ s'.calledHi.length := by
  suffices hall : (n = 0 ∨ s'.Favours (s.jobs arqPriorityHigh).length) ∧
      (s.jobs arqPriorityHigh).length ≤ (s'.jobs arqPriorityHigh).length ∧
      min (s.jobs arqPriorityHigh).length (s.calledHi.length + (n - 1)) ≤ s'.calledHi.length from
    hall.2.2
  induction hrun with
  | refl => exact ⟨.inl rfl, Nat.le_refl _, Nat.min_le_right _ _⟩
  | @post s' s'' n p hrun hstep ih =>
      obtain ⟨hfavours, hjobs, hcalled⟩ := ih
      have hreached := hrun.reached h
      cases hstep with
      | post _ hfree =>
          refine ⟨hfavours.imp_right fun hf hlt => post_pending hreached hfree (hf hlt),
            Nat.le_trans hjobs ?_, hcalled⟩
          show _ ≤ (({ s' with posted := s'.posted ++ [p] } : ArqSystem ι κ).jobs _).length
          rw [jobs_concat, List.length_append]
          exact Nat.le_add_right _ _
  | @interrupt s' s'' n posts hrun hstep ih =>
      obtain ⟨hfavours, hjobs, hcalled⟩ := ih
      have hreached := hrun.reached h
      obtain ⟨hnext, hcount⟩ := favours_interrupt hreached hstep hjobs
      refine ⟨.inr hnext, Nat.le_trans hjobs (jobs_interrupt hstep), ?_⟩
      rw [hcount, Nat.add_sub_cancel]
      rcases hfavours with rfl | hfavours
      · omega
      · by_cases hlt : s'.calledHi.length < (s.jobs arqPriorityHigh).length
        · rw [if_pos (hfavours hlt)]
          omega
        · omega

theorem arq_high_first_crowded :
    min (sampleCrowded.jobs arqPriorityHigh).length (sampleCrowded.calledHi.length + (2 - 1)) ≤
      sampleCrowded.quiet.quiet.calledHi.length := by
  have hfirst : ArqRun sampleCrowded 1 sampleCrowded.quiet :=
    .interrupt (.refl _) (.interrupt [] rfl trivial)
  exact arq_high_first sampleCrowded_reached (.interrupt hfirst (.interrupt [] rfl trivial))

end Clients

end Aram
end Cubiboot
