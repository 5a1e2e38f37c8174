import Cubiboot.Worker.Enumerator

/-!
# One worker at a time

`gm_deinit_thread` waits for the worker when `game_enum_running` is set.  The worker
clears it before it has returned, and is then not waited for: in between,
`gm_start_thread` takes the thread, its stack and the entries from under it.

`EnumGuard` asks of a start that it does not come upon such a worker.

Results: `WorkerStep.inv` and `MenuStep.inv`, one for each thread; `EnumStep.inv`, the
step lemma; `one_worker_at_a_time`, that in every run whose starts meet the guard the
thread and the entries belong to one worker, and that a start which does not meet it is
followed by a run into a state where they do not; and `left_as_enumeration_ends`, such a
run from boot.
-/

namespace Cubiboot
namespace Worker

open Runs

/--
The thread and the entries are left alone until the worker has exited, and a start
is not refused.
-/
structure OneWorker (s : EnumState) : Prop where
  released : s.menu = .releasing → s.worker = .exited
  created : s.menu = .creating → s.worker = .exited
  notRefused : s.menu = .starting → s.gameEnumRunning = false

/--
The condition on a step: `gm_start_thread` does not find `game_enum_running` clear
while the worker that has cleared it is still there.
-/
def EnumGuard (s : EnumState) : EnumEvent → Prop
  | .menu => s.menu = .starting → s.worker ≠ .leaving
  | _ => True

/-- The worker is in its function, and has not cleared `game_enum_running`. -/
def WorkerPoint.running : WorkerPoint → Bool
  | .exited | .leaving => false
  | _ => true

/-- The worker has been resumed and is at work. -/
def WorkerPoint.working : WorkerPoint → Bool
  | .exited | .suspended | .leaving => false
  | _ => true

/-- The menu has set `game_enum_running` for a worker that it has still to create. -/
def MenuPoint.marked : MenuPoint → Bool
  | .releasing | .creating => true
  | _ => false

/-- There is no worker while the menu is here. -/
def MenuPoint.alone : MenuPoint → Bool
  | .unlocking _ | .marking | .releasing | .creating => true
  | _ => false

/-- The menu is in `gm_deinit_thread`, and the worker has been running. -/
def MenuPoint.waits : MenuPoint → Bool
  | .locking _ | .joining _ | .asleep _ => true
  | _ => false

/-- The menu sleeps in `OSJoinThread`. -/
def MenuPoint.sleeps : MenuPoint → Bool
  | .asleep _ => true
  | _ => false

/-- What every guarded run keeps. -/
structure WorkerInv (s : EnumState) : Prop where
  flag : s.gameEnumRunning = (s.worker.running || s.menu.marked)
  alone : s.menu.alone = true → s.worker = .exited
  suspended : s.worker = .suspended ↔ s.menu = .resuming
  starting : s.menu = .starting → s.gameEnumRunning = false
  attached : s.thread.detached = false
  live : s.thread.state = .live ↔ s.worker ≠ .exited
  created : s.menu.waits = true → s.thread.state ≠ .idle
  queue : s.thread.joinQueue = true ↔ s.menu.sleeps = true ∧ s.worker ≠ .exited

variable {s s' : EnumState}

theorem WorkerPoint.working_running {point : WorkerPoint} (h : point.working = true) :
    point.running = true := by
  cases point <;> first | rfl | cases h

theorem WorkerPoint.working_ne {point : WorkerPoint} (h : point.working = true) :
    point ≠ .exited ∧ point ≠ .suspended := by
  constructor
  · rintro rfl
    cases h
  · rintro rfl
    cases h

theorem StopLoop.stopped_working (loop : StopLoop) : loop.stopped.working = true := by
  cases loop <;> rfl

theorem StopLoop.through_working (loop : StopLoop) : loop.through.working = true := by
  cases loop <;> rfl

/-- What a step of the worker can do to what the menu looks at. -/
theorem WorkerStep.effect (h : WorkerStep s s') :
    s'.menu = s.menu ∧
      (s.worker.working = true ∧ s'.worker.working = true ∧
          s'.thread = s.thread ∧ s'.gameEnumRunning = s.gameEnumRunning ∨
        s.worker = .done ∧ s'.worker = .leaving ∧
          s'.thread = s.thread ∧ s'.gameEnumRunning = false ∨
        s.worker = .leaving ∧ s'.worker = .exited ∧
          s'.thread = osExitThread s.thread ∧ s'.gameEnumRunning = s.gameEnumRunning) := by
  cases h with
  | noTarget hw => exact ⟨rfl, .inl ⟨by rw [hw]; rfl, rfl, rfl, rfl⟩⟩
  | unreadable hw => exact ⟨rfl, .inl ⟨by rw [hw]; rfl, rfl, rfl, rfl⟩⟩
  | listed hw => exact ⟨rfl, .inl ⟨by rw [hw]; rfl, rfl, rfl, rfl⟩⟩
  | through loop hw =>
      exact ⟨rfl, .inl ⟨by rw [hw]; rfl, loop.through_working, rfl, rfl⟩⟩
  | noGame hw => exact ⟨rfl, .inl ⟨by rw [hw]; rfl, by rw [hw]; rfl, rfl, rfl⟩⟩
  | tryLock loop hw hm => exact ⟨rfl, .inl ⟨by rw [hw]; rfl, rfl, rfl, rfl⟩⟩
  | stop loop hw hm =>
      exact ⟨rfl, .inl ⟨by rw [hw]; rfl, loop.stopped_working, rfl, rfl⟩⟩
  | unlock loop hw => exact ⟨rfl, .inl ⟨by rw [hw]; rfl, rfl, rfl, rfl⟩⟩
  | checkFile hw added => exact ⟨rfl, .inl ⟨by rw [hw]; rfl, rfl, rfl, rfl⟩⟩
  | passDirectory hw => exact ⟨rfl, .inl ⟨by rw [hw]; rfl, rfl, rfl, rfl⟩⟩
  | warmDirectory hw => exact ⟨rfl, .inl ⟨by rw [hw]; rfl, rfl, rfl, rfl⟩⟩
  | warmFile hw => exact ⟨rfl, .inl ⟨by rw [hw]; rfl, rfl, rfl, rfl⟩⟩
  | warm hw _ => exact ⟨rfl, .inl ⟨by rw [hw]; rfl, rfl, rfl, rfl⟩⟩
  | warmed hw _ => exact ⟨rfl, .inl ⟨by rw [hw]; rfl, rfl, rfl, rfl⟩⟩
  | clearRunning hw => exact ⟨rfl, .inr (.inl ⟨hw, rfl, rfl, rfl⟩)⟩
  | exit hw => exact ⟨rfl, .inr (.inr ⟨hw, rfl, rfl, rfl⟩)⟩

/-- While the worker is in its function, the menu is not about to start another one. -/
theorem WorkerInv.not_marked (h : WorkerInv s) (hw : s.worker ≠ .exited) :
    s.menu.marked = false := by
  cases hm : s.menu.marked with
  | false => rfl
  | true =>
      refine absurd (h.alone ?_) hw
      revert hm
      cases s.menu <;> simp [MenuPoint.marked, MenuPoint.alone]

/-- The worker goes on, or clears `game_enum_running`: its thread stays as it is. -/
theorem WorkerInv.moves
    (h : WorkerInv s) {point : WorkerPoint}
    (hmenu : s'.menu = s.menu) (hthread : s'.thread = s.thread) (hpoint : s'.worker = point)
    (hflag : s'.gameEnumRunning = point.running)
    (hwas : s.worker ≠ .exited ∧ s.worker ≠ .suspended)
    (his : point ≠ .exited ∧ point ≠ .suspended)
    (hstarting : s.menu = .starting → point.running = false) :
    WorkerInv s' := by
  constructor
  · rw [hflag, hpoint, hmenu, h.not_marked hwas.1, Bool.or_false]
  · rw [hmenu]
    exact fun hm => absurd (h.alone hm) hwas.1
  · rw [hpoint, hmenu]
    exact iff_of_false his.2 fun hm => hwas.2 (h.suspended.2 hm)
  · rw [hmenu, hflag]
    exact hstarting
  · rw [hthread]
    exact h.attached
  · rw [hthread, hpoint]
    exact iff_of_true (h.live.2 hwas.1) his.1
  · rw [hmenu, hthread]
    exact h.created
  · rw [hthread, hmenu, hpoint, h.queue]
    exact and_congr_right fun _ => iff_of_true hwas.1 his.1

theorem osExitThread_attached {thread : OSThread} (h : thread.detached = false) :
    osExitThread thread = { thread with state := .moribund, joinQueue := false } := by
  rw [osExitThread, h]
  rfl

/-- The worker exits. -/
theorem WorkerInv.exits
    (h : WorkerInv s) (hwas : s.worker = .leaving) (hmenu : s'.menu = s.menu)
    (hpoint : s'.worker = .exited) (hthread : s'.thread = osExitThread s.thread)
    (hflag : s'.gameEnumRunning = s.gameEnumRunning) :
    WorkerInv s' := by
  have hthere : s.worker ≠ .exited := by
    rw [hwas]
    exact WorkerPoint.noConfusion
  have hidle : s.gameEnumRunning = false := by
    rw [h.flag, hwas, h.not_marked hthere]
    rfl
  rw [osExitThread_attached h.attached] at hthread
  constructor
  · rw [hflag, hidle, hpoint, hmenu, h.not_marked hthere]
    rfl
  · exact fun _ => hpoint
  · rw [hpoint, hmenu]
    refine iff_of_false WorkerPoint.noConfusion fun hm => ?_
    have hsuspended := h.suspended.2 hm
    rw [hwas] at hsuspended
    cases hsuspended
  · exact fun _ => hflag.trans hidle
  · rw [hthread]
    exact h.attached
  · rw [hthread, hpoint]
    exact iff_of_false ThreadState.noConfusion fun hne => hne rfl
  · rw [hthread]
    exact fun _ => ThreadState.noConfusion
  · rw [hthread, hpoint]
    exact iff_of_false Bool.noConfusion fun hne => hne.2 rfl

/-- One step of the worker keeps the invariant. -/
theorem WorkerStep.inv (hs : WorkerStep s s') (h : WorkerInv s) : WorkerInv s' := by
  obtain ⟨hmenu, hstep | hstep | hstep⟩ := hs.effect
  · obtain ⟨hwas, his, hthread, hflag⟩ := hstep
    have hne := WorkerPoint.working_ne hwas
    have hset : s.gameEnumRunning = true := by
      rw [h.flag, WorkerPoint.working_running hwas]
      rfl
    refine h.moves hmenu hthread rfl ?_ hne (WorkerPoint.working_ne his) fun hm => ?_
    · rw [hflag, hset, WorkerPoint.working_running his]
    · rw [h.starting hm] at hset
      cases hset
  · obtain ⟨hwas, his, hthread, hflag⟩ := hstep
    refine h.moves hmenu hthread his hflag ?_ ⟨?_, ?_⟩ fun _ => rfl
    · rw [hwas]
      exact ⟨WorkerPoint.noConfusion, WorkerPoint.noConfusion⟩
    · exact WorkerPoint.noConfusion
    · exact WorkerPoint.noConfusion
  · obtain ⟨hwas, his, hthread, hflag⟩ := hstep
    exact h.exits hwas hmenu his hthread hflag

/-- Joining a thread that is not live: it stays so. -/
theorem joinExited_spec {thread : OSThread} (h : thread.state ≠ .live) :
    (joinExited thread).state ≠ .live ∧
      (joinExited thread).detached = thread.detached ∧
      (joinExited thread).joinQueue = thread.joinQueue := by
  rw [joinExited]
  split
  · exact ⟨ThreadState.noConfusion, rfl, rfl⟩
  · exact ⟨h, rfl, rfl⟩

theorem osJoinThreadWoken_spec {thread : OSThread} (h : thread.state ≠ .live) :
    (osJoinThreadWoken thread).state ≠ .live ∧
      (osJoinThreadWoken thread).detached = thread.detached ∧
      (osJoinThreadWoken thread).joinQueue = thread.joinQueue := by
  rw [osJoinThreadWoken]
  split
  · exact ⟨h, rfl, rfl⟩
  · exact joinExited_spec h

/-- The caller of `OSJoinThread` sleeps as long as the thread is live. -/
theorem osJoinThread_sleeps {thread : OSThread} (h : (osJoinThread thread).1 = true) :
    thread.state ≠ .moribund ∧
      (osJoinThread thread).2 = { thread with joinQueue := true } := by
  simp only [osJoinThread] at h ⊢
  split at h
  · rename_i hsleeps
    rw [if_pos hsleeps]
    exact ⟨hsleeps.2.1, rfl⟩
  · cases h

theorem osJoinThread_returns
    {thread : OSThread} (h : (osJoinThread thread).1 = false)
    (hattached : thread.detached = false) (hqueue : thread.joinQueue = false) :
    thread.state = .moribund ∧ (osJoinThread thread).2 = joinExited thread := by
  simp only [osJoinThread] at h ⊢
  split at h
  · cases h
  · rename_i hsleeps
    rw [if_neg hsleeps]
    refine ⟨?_, rfl⟩
    by_contra hstate
    exact hsleeps ⟨hattached, hstate, hqueue⟩

/-- The menu goes on, the worker and its thread staying as they are. -/
theorem WorkerInv.menu_moves
    (h : WorkerInv s) {point : MenuPoint}
    (hmenu : s'.menu = point) (hworker : s'.worker = s.worker)
    (hthread : s'.thread = s.thread)
    (hflag : s'.gameEnumRunning = (s.worker.running || point.marked))
    (halone : point.alone = true → s.worker = .exited)
    (hwas : s.menu ≠ .resuming) (his : point ≠ .resuming)
    (hstarting : point = .starting → s.worker.running = false)
    (hwaits : point.waits = true → s.thread.state ≠ .idle)
    (hsleeps : s.menu.sleeps = false ∧ point.sleeps = false) :
    WorkerInv s' := by
  constructor
  · rw [hflag, hworker, hmenu]
  · rw [hmenu, hworker]
    exact halone
  · rw [hworker, hmenu]
    exact iff_of_false (fun hs => hwas (h.suspended.1 hs)) his
  · rw [hmenu, hflag]
    intro hs
    rw [hstarting hs, hs]
    rfl
  · rw [hthread]
    exact h.attached
  · rw [hthread, hworker]
    exact h.live
  · rw [hmenu, hthread]
    exact hwaits
  · rw [hthread, hmenu, hworker, h.queue, hsleeps.1, hsleeps.2]

/-- `gm_deinit_thread` has joined the worker: it has exited. -/
theorem WorkerInv.joined
    (h : WorkerInv s) {c : Caller} (hexited : s.worker = .exited)
    (hwaits : s.menu.waits = true)
    (hmenu : s'.menu = .unlocking c) (hworker : s'.worker = s.worker)
    (hflag : s'.gameEnumRunning = s.gameEnumRunning)
    (hstate : s'.thread.state ≠ .live) (hattached : s'.thread.detached = false)
    (hqueue : s'.thread.joinQueue = false) :
    WorkerInv s' := by
  have hmarked : s.menu.marked = false := by
    revert hwaits
    cases s.menu <;> simp [MenuPoint.waits, MenuPoint.marked]
  have hidle : s.gameEnumRunning = false := by
    rw [h.flag, hexited, hmarked]
    rfl
  constructor
  · rw [hflag, hidle, hworker, hexited, hmenu]
    rfl
  · exact fun _ => hworker.trans hexited
  · rw [hworker, hexited, hmenu]
    exact iff_of_false WorkerPoint.noConfusion MenuPoint.noConfusion
  · exact fun _ => hflag.trans hidle
  · exact hattached
  · rw [hworker, hexited]
    exact iff_of_false hstate fun hne => hne rfl
  · rw [hmenu]
    exact fun hw => Bool.noConfusion hw
  · rw [hqueue, hmenu]
    exact iff_of_false Bool.noConfusion fun hs => Bool.noConfusion hs.1

/-- What `game_enum_running` says of the worker, while `gm_start_thread` has not set it. -/
theorem WorkerInv.running_eq (h : WorkerInv s) (hmarked : s.menu.marked = false) :
    s.worker.running = s.gameEnumRunning := by
  rw [h.flag, hmarked, Bool.or_false]

/-- `gm_deinit_thread` returns to its caller. -/
theorem WorkerInv.returns
    (h : WorkerInv s) (c : Caller) (mutex : OSMutex) (hwas : s.menu ≠ .resuming)
    (hsleeps : s.menu.sleeps = false) (hidle : s.worker.running = false)
    (hflag : s.gameEnumRunning = false) :
    WorkerInv { s with menu := c.returned, mutex := mutex } := by
  have hreturned : s.gameEnumRunning = (s.worker.running || c.returned.marked) := by
    rw [hflag, hidle]
    cases c with
    | bs2start => rfl
    | inputs => rfl
  cases c with
  | bs2start =>
      exact h.menu_moves rfl rfl rfl hreturned Bool.noConfusion hwas MenuPoint.noConfusion
        (fun _ => hidle) Bool.noConfusion ⟨hsleeps, rfl⟩
  | inputs =>
      exact h.menu_moves rfl rfl rfl hreturned Bool.noConfusion hwas MenuPoint.noConfusion
        (fun _ => hidle) Bool.noConfusion ⟨hsleeps, rfl⟩

/-- `OSJoinThread` puts the menu to sleep. -/
theorem WorkerInv.sleeps
    (h : WorkerInv s) {c : Caller} (hm : s.menu = .joining c)
    (hj : (osJoinThread s.thread).1 = true) :
    WorkerInv { s with menu := .asleep c, thread := (osJoinThread s.thread).2 } := by
  obtain ⟨hstate, hthread⟩ := osJoinThread_sleeps hj
  have hcreated := h.created (by rw [hm]; rfl)
  have hlive : s.thread.state = .live := by
    cases hst : s.thread.state with
    | idle => exact absurd hst hcreated
    | live => rfl
    | moribund => exact absurd hst hstate
  have hthere : s.worker ≠ .exited := h.live.1 hlive
  rw [hthread]
  constructor
  · rw [h.flag, hm]
    rfl
  · exact Bool.noConfusion
  · refine iff_of_false (fun hs => ?_) MenuPoint.noConfusion
    have hr := h.suspended.1 hs
    rw [hm] at hr
    cases hr
  · exact MenuPoint.noConfusion
  · exact h.attached
  · exact h.live
  · exact fun _ => hcreated
  · exact iff_of_true rfl ⟨rfl, hthere⟩

/-- `OSJoinThread` returns at once. -/
theorem WorkerInv.joins
    (h : WorkerInv s) {c : Caller} (hm : s.menu = .joining c)
    (hj : (osJoinThread s.thread).1 = false) :
    WorkerInv { s with menu := .unlocking c, thread := (osJoinThread s.thread).2 } := by
  have hqueue : s.thread.joinQueue = false := by
    by_contra hq
    have hsleeps := (h.queue.1 (by simpa using hq)).1
    rw [hm] at hsleeps
    cases hsleeps
  obtain ⟨hstate, hthread⟩ := osJoinThread_returns hj h.attached hqueue
  have hdead : s.thread.state ≠ .live := by
    rw [hstate]
    exact ThreadState.noConfusion
  have hexited : s.worker = .exited := by
    by_contra hthere
    exact hdead (h.live.2 hthere)
  obtain ⟨hlive, hdetached, hjoin⟩ := joinExited_spec hdead
  rw [hthread]
  exact h.joined hexited (by rw [hm]; rfl) rfl rfl rfl hlive
    (hdetached.trans h.attached) (hjoin.trans hqueue)

/-- `OSJoinThread` returns after its sleep. -/
theorem WorkerInv.wakes
    (h : WorkerInv s) {c : Caller} (hm : s.menu = .asleep c)
    (hq : s.thread.joinQueue = false) :
    WorkerInv { s with menu := .unlocking c, thread := osJoinThreadWoken s.thread } := by
  have hexited : s.worker = .exited := by
    by_contra hthere
    have hjoin := h.queue.2 ⟨by rw [hm]; rfl, hthere⟩
    rw [hq] at hjoin
    cases hjoin
  have hdead : s.thread.state ≠ .live := fun hlive => h.live.1 hlive hexited
  obtain ⟨hlive, hdetached, hjoin⟩ := osJoinThreadWoken_spec hdead
  exact h.joined hexited (by rw [hm]; rfl) rfl rfl rfl hlive
    (hdetached.trans h.attached) (hjoin.trans hq)

/-- `gm_start_thread` creates the thread. -/
theorem WorkerInv.creates (h : WorkerInv s) (hm : s.menu = .creating) :
    WorkerInv { s with menu := .resuming, worker := .suspended, thread := osCreateThread } := by
  constructor
  · rw [h.flag, hm]
    exact Bool.or_true _
  · exact Bool.noConfusion
  · exact iff_of_true rfl rfl
  · exact MenuPoint.noConfusion
  · rfl
  · exact iff_of_true rfl WorkerPoint.noConfusion
  · exact Bool.noConfusion
  · exact iff_of_false Bool.noConfusion fun hs => Bool.noConfusion hs.1

/-- `gm_start_thread` lets the worker go. -/
theorem WorkerInv.resumes (h : WorkerInv s) (hm : s.menu = .resuming) :
    WorkerInv { s with menu := .idle, worker := .listing } := by
  have hsuspended : s.worker = .suspended := h.suspended.2 hm
  constructor
  · rw [h.flag, hm, hsuspended]
    rfl
  · exact Bool.noConfusion
  · exact iff_of_false WorkerPoint.noConfusion MenuPoint.noConfusion
  · exact MenuPoint.noConfusion
  · exact h.attached
  · refine iff_of_true (h.live.2 ?_) WorkerPoint.noConfusion
    rw [hsuspended]
    exact WorkerPoint.noConfusion
  · exact Bool.noConfusion
  · rw [h.queue, hm]
    exact iff_of_false (fun hs => Bool.noConfusion hs.1) fun hs => Bool.noConfusion hs.1

/-- One step of the menu keeps the invariant. -/
theorem MenuStep.inv
    (hs : MenuStep s s') (h : WorkerInv s)
    (hguard : s.menu = .starting → s.worker ≠ .leaving) : WorkerInv s' := by
  have hflag := h.flag
  have hnotResuming : ∀ point, s.menu = point → point ≠ .resuming → s.menu ≠ .resuming :=
    fun point hm hne hr => hne (hm ▸ hr)
  cases hs with
  | deinitIdle c hm hr =>
      have hidle := h.running_eq (by rw [hm]; rfl)
      exact h.returns c s.mutex (hnotResuming _ hm MenuPoint.noConfusion) (by rw [hm]; rfl)
        (hidle.trans hr) hr
  | deinit c hm hr =>
      have hrunning := (h.running_eq (by rw [hm]; rfl)).trans hr
      have hthere : s.worker ≠ .exited := by
        intro hexited
        rw [hexited] at hrunning
        cases hrunning
      refine h.menu_moves rfl rfl rfl ?_ Bool.noConfusion ?_ MenuPoint.noConfusion
        MenuPoint.noConfusion (fun _ => ?_) ⟨by rw [hm]; rfl, rfl⟩
      · rw [hr, hrunning]
        rfl
      · exact hnotResuming _ hm MenuPoint.noConfusion
      · rw [h.live.2 hthere]
        exact ThreadState.noConfusion
  | lock c hm hlock =>
      refine h.menu_moves rfl rfl rfl ?_ Bool.noConfusion ?_ MenuPoint.noConfusion
        MenuPoint.noConfusion (fun _ => ?_) ⟨by rw [hm]; rfl, rfl⟩
      · rw [hflag, hm]
        rfl
      · exact hnotResuming _ hm MenuPoint.noConfusion
      · exact h.created (by rw [hm]; rfl)
  | joinSleeps c hm hj => exact h.sleeps hm hj
  | join c hm hj => exact h.joins hm hj
  | woken c hm hq => exact h.wakes hm hq
  | unlock c hm =>
      have hexited : s.worker = .exited := h.alone (by rw [hm]; rfl)
      have hidle : s.worker.running = false := by
        rw [hexited]
        rfl
      exact h.returns c _ (hnotResuming _ hm MenuPoint.noConfusion) (by rw [hm]; rfl)
        hidle ((h.running_eq (by rw [hm]; rfl)).symm.trans hidle)
  | startRefused hm hr =>
      rw [h.starting hm] at hr
      cases hr
  | start hm hr =>
      have hidle := (h.running_eq (by rw [hm]; rfl)).trans hr
      have hexited : s.worker = .exited := by
        cases hw : s.worker with
        | exited => rfl
        | leaving => exact absurd hw (hguard hm)
        | _ =>
            rw [hw] at hidle
            cases hidle
      refine h.menu_moves rfl rfl rfl ?_ (fun _ => hexited) ?_ MenuPoint.noConfusion
        MenuPoint.noConfusion Bool.noConfusion ⟨by rw [hm]; rfl, rfl⟩
      · rw [hr, hidle]
        rfl
      · exact hnotResuming _ hm MenuPoint.noConfusion
  | setRunning hm =>
      have hexited : s.worker = .exited := h.alone (by rw [hm]; rfl)
      refine h.menu_moves rfl rfl rfl ?_ (fun _ => hexited) ?_ MenuPoint.noConfusion
        MenuPoint.noConfusion Bool.noConfusion ⟨by rw [hm]; rfl, rfl⟩
      · rw [hexited]
        rfl
      · exact hnotResuming _ hm MenuPoint.noConfusion
  | releaseEntries hm =>
      have hexited : s.worker = .exited := h.alone (by rw [hm]; rfl)
      refine h.menu_moves rfl rfl rfl ?_ (fun _ => hexited) ?_ MenuPoint.noConfusion
        MenuPoint.noConfusion Bool.noConfusion ⟨by rw [hm]; rfl, rfl⟩
      · rw [hflag, hm]
        rfl
      · exact hnotResuming _ hm MenuPoint.noConfusion
  | createThread hm => exact h.creates hm
  | resumeThread hm => exact h.resumes hm

/-- One step keeps the invariant. -/
theorem EnumStep.inv
    {a : EnumEvent} (hs : EnumStep s a s') (h : WorkerInv s) (hguard : EnumGuard s a) :
    WorkerInv s' := by
  cases hs with
  | call c hm =>
      refine h.menu_moves rfl rfl rfl ?_ Bool.noConfusion ?_ MenuPoint.noConfusion
        MenuPoint.noConfusion Bool.noConfusion ⟨by rw [hm]; rfl, rfl⟩
      · rw [h.flag, hm]
        rfl
      · rw [hm]
        exact MenuPoint.noConfusion
  | menu hstep => exact hstep.inv h hguard
  | worker hstep => exact hstep.inv h

theorem Booted.inv (h : Booted s) : WorkerInv s := by
  have hmenu : s.menu.marked = false ∧ s.menu.waits = false ∧ s.menu.sleeps = false ∧
      s.menu ≠ .resuming := by
    rcases h.menu with hm | hm <;> rw [hm] <;>
      exact ⟨rfl, rfl, rfl, MenuPoint.noConfusion⟩
  obtain ⟨hmarked, hwaits, hsleeps, hresuming⟩ := hmenu
  constructor
  · rw [h.running, h.worker, hmarked]
    rfl
  · exact fun _ => h.worker
  · rw [h.worker]
    exact iff_of_false WorkerPoint.noConfusion hresuming
  · exact fun _ => h.running
  · rw [h.thread]
    rfl
  · rw [h.thread, h.worker]
    exact iff_of_false ThreadState.noConfusion fun hne => hne rfl
  · rw [hwaits]
    exact Bool.noConfusion
  · rw [h.thread, hsleeps]
    exact iff_of_false Bool.noConfusion fun hs => Bool.noConfusion hs.1

theorem reachable_inv
    (h : Reachable Booted (Guarded EnumStep EnumGuard) s) : WorkerInv s := by
  refine h.invariant (fun _ hbooted => hbooted.inv) ?_
  rintro _ _ hinv ⟨_, hguard, hstep⟩
  exact hstep.inv hinv hguard

theorem WorkerInv.one_worker (h : WorkerInv s) : OneWorker s := by
  constructor
  · intro hm
    exact h.alone (by rw [hm]; rfl)
  · intro hm
    exact h.alone (by rw [hm]; rfl)
  · exact h.starting

/-- A start under a worker that is leaving goes on to release the entries. -/
theorem starts_under_worker
    (hmenu : s.menu = .starting) (hworker : s.worker = .leaving)
    (hidle : s.gameEnumRunning = false) :
    ∃ t, Relation.ReflTransGen (anyStep EnumStep) s t ∧
      t.menu = .releasing ∧ t.worker = .leaving ∧ t.gmEntryCount = s.gmEntryCount := by
  have hfirst : anyStep EnumStep s { s with menu := .marking } :=
    ⟨.menu, .menu (.start hmenu hidle)⟩
  have hsecond : anyStep EnumStep { s with menu := .marking }
      { s with menu := .releasing, gameEnumRunning := true } :=
    ⟨.menu, .menu (.setRunning rfl)⟩
  exact ⟨_, .tail (.single hfirst) hsecond, rfl, hworker, rfl⟩

/--
When no start comes upon a worker that has cleared `game_enum_running` and is still
there, the thread and the entries are left alone until the worker has exited, and
no start is refused.  From any other start the menu goes on to release the entries
under the worker.
-/
theorem one_worker_at_a_time
    (s : EnumState) (hreach : Reachable Booted (Guarded EnumStep EnumGuard) s) :
    OneWorker s ∧
      ∀ a, ¬ EnumGuard s a → ∃ t, Relation.ReflTransGen (anyStep EnumStep) s t ∧ ¬ OneWorker t := by
  constructor
  · exact (reachable_inv hreach).one_worker
  · intro a hguard
    cases a with
    | call c => exact absurd trivial hguard
    | worker => exact absurd trivial hguard
    | menu =>
        have hbad : s.menu = .starting ∧ s.worker = .leaving := by
          constructor
          · by_contra hm
            exact hguard fun hstart => absurd hstart hm
          · by_contra hw
            exact hguard fun _ => hw
        obtain ⟨t, hrun, hreleasing, hleaving, _⟩ :=
          starts_under_worker hbad.1 hbad.2 ((reachable_inv hreach).starting hbad.1)
        refine ⟨t, hrun, fun hone => ?_⟩
        have hexited := hone.released hreleasing
        rw [hleaving] at hexited
        cases hexited

/-- The menu comes up. -/
def menuUp : EnumState where
  gameEnumRunning := false
  warmPending := true
  mutex := osInitMutex
  thread := .zero
  gmEntryCount := 0
  worker := .exited
  menu := .starting

theorem menuUp_booted : Booted menuUp :=
  ⟨rfl, rfl, rfl, rfl, rfl, rfl, Or.inl rfl⟩

/-- The first worker has been started. -/
def firstWorker : EnumState :=
  { menuUp with
    gameEnumRunning := true
    thread := osCreateThread
    worker := .listing
    menu := .idle }

/-- It has been, under the guard: there is no earlier worker. -/
theorem firstWorker_guarded :
    Reachable Booted (Guarded EnumStep EnumGuard) firstWorker := by
  have hup : Reachable Booted (Guarded EnumStep EnumGuard) menuUp :=
    Reachable.start menuUp_booted
  have hmarking := hup.step
    ⟨.menu, fun _ => WorkerPoint.noConfusion, .menu (.start rfl rfl)⟩
  have hreleasing := hmarking.step
    ⟨.menu, fun hm => MenuPoint.noConfusion hm, .menu (.setRunning rfl)⟩
  have hcreating := hreleasing.step
    ⟨.menu, fun hm => MenuPoint.noConfusion hm, .menu (.releaseEntries rfl)⟩
  have hresuming := hcreating.step
    ⟨.menu, fun hm => MenuPoint.noConfusion hm, .menu (.createThread rfl)⟩
  exact hresuming.step ⟨.menu, fun hm => MenuPoint.noConfusion hm, .menu (.resumeThread rfl)⟩

/-- A directory is left while it is listed: the menu sleeps until the worker has exited. -/
def leftEarly : EnumState :=
  { firstWorker with
    mutex := (osLockMutex osInitMutex .menu).getD osInitMutex
    thread := (osJoinThread osCreateThread).2
    worker := .head .checkFiles
    menu := .asleep .inputs }

theorem leftEarly_guarded : Reachable Booted (Guarded EnumStep EnumGuard) leftEarly := by
  have hlisted := firstWorker_guarded.step ⟨.worker, trivial, .worker (.listed rfl)⟩
  have hcalled := hlisted.step ⟨.call .inputs, trivial, .call .inputs rfl⟩
  have hlocking := hcalled.step
    ⟨.menu, fun hm => MenuPoint.noConfusion hm, .menu (.deinit .inputs rfl rfl)⟩
  have hjoining := hlocking.step
    ⟨.menu, fun hm => MenuPoint.noConfusion hm, .menu (.lock .inputs rfl rfl)⟩
  exact hjoining.step
    ⟨.menu, fun hm => MenuPoint.noConfusion hm, .menu (.joinSleeps .inputs rfl rfl)⟩

/-- The next directory is entered: its entries are released once the worker has exited. -/
theorem one_worker_restarted :
    ∃ s, Relation.ReflTransGen (Guarded EnumStep EnumGuard) leftEarly s ∧
      s.menu = .releasing ∧ OneWorker s := by
  have hleft : Relation.ReflTransGen (Guarded EnumStep EnumGuard) leftEarly leftEarly := .refl
  -- the worker finds the mutex taken, in both of its loops
  have hchecked := hleft.tail ⟨.worker, trivial, .worker (.stop .checkFiles rfl rfl)⟩
  have hwarming := hchecked.tail ⟨.worker, trivial, .worker (.warm rfl rfl)⟩
  have hstopped := hwarming.tail ⟨.worker, trivial, .worker (.stop .warmCard rfl rfl)⟩
  have hcleared := hstopped.tail ⟨.worker, trivial, .worker (.clearRunning rfl)⟩
  have hexited := hcleared.tail ⟨.worker, trivial, .worker (.exit rfl)⟩
  have hwoken := hexited.tail
    ⟨.menu, fun hm => MenuPoint.noConfusion hm, .menu (.woken .inputs rfl rfl)⟩
  have hstarting := hwoken.tail
    ⟨.menu, fun hm => MenuPoint.noConfusion hm, .menu (.unlock .inputs rfl)⟩
  have hmarking := hstarting.tail
    ⟨.menu, fun _ => WorkerPoint.noConfusion, .menu (.start rfl rfl)⟩
  have hreleasing := hmarking.tail
    ⟨.menu, fun hm => MenuPoint.noConfusion hm, .menu (.setRunning rfl)⟩
  obtain ⟨s₀, hbooted, hrun⟩ := leftEarly_guarded
  exact ⟨_, hreleasing, rfl,
    (one_worker_at_a_time _ ⟨s₀, hbooted, hrun.trans hreleasing⟩).1⟩

theorem firstWorker_reached : Reachable Booted (anyStep EnumStep) firstWorker := by
  refine firstWorker_guarded.mono ?_
  rintro _ _ ⟨a, _, hs⟩
  exact ⟨a, hs⟩

/-- One file has been checked, the card is warmed, and the worker is leaving. -/
def lastStep : EnumState :=
  { firstWorker with
    gameEnumRunning := false
    warmPending := false
    gmEntryCount := 1
    worker := .leaving }

theorem lastStep_reached : Reachable Booted (anyStep EnumStep) lastStep := by
  have hlisted := firstWorker_reached.step ⟨.worker, .worker (.listed rfl)⟩
  have hlocked := hlisted.step ⟨.worker, .worker (.tryLock .checkFiles rfl rfl)⟩
  have hbody := hlocked.step ⟨.worker, .worker (.unlock .checkFiles rfl)⟩
  have hadded := hbody.step ⟨.worker, .worker (.checkFile rfl true)⟩
  have hchecked := hadded.step ⟨.worker, .worker (.through .checkFiles rfl)⟩
  have hwarming := hchecked.step ⟨.worker, .worker (.warm rfl rfl)⟩
  have hdone := hwarming.step ⟨.worker, .worker (.through .warmCard rfl)⟩
  exact hdone.step ⟨.worker, .worker (.clearRunning rfl)⟩

/--
The directory is left just as the worker has cleared `game_enum_running`: it is not
waited for, and its entry is about to be released while it is still there.
-/
theorem left_as_enumeration_ends :
    ∃ t, Reachable Booted (anyStep EnumStep) t ∧
      t.menu = .releasing ∧ t.worker = .leaving ∧ t.gmEntryCount = 1 ∧ ¬ OneWorker t := by
  have hcalled := lastStep_reached.step ⟨.call .inputs, .call .inputs rfl⟩
  have hstarting := hcalled.step ⟨.menu, .menu (.deinitIdle .inputs rfl rfl)⟩
  have hmarking := hstarting.step ⟨.menu, .menu (.start rfl rfl)⟩
  have hreleasing := hmarking.step ⟨.menu, .menu (.setRunning rfl)⟩
  exact ⟨_, hreleasing, rfl, rfl, rfl, fun h => WorkerPoint.noConfusion (h.released rfl)⟩

end Worker
end Cubiboot
