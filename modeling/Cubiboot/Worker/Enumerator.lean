import Cubiboot.Foundations.Runs
import Cubiboot.Worker.Threads

/-!
# The enumeration worker

`gm_thread_worker`, `gm_start_thread` and `gm_deinit_thread` of `games.c`, with the
menu that stops the worker and starts it again.

The two threads take their steps in any order.  How many files a directory has, and
which of them are games, is left open.  What is listed, checked and warmed is
not modelled here, but for the count of the entries.

A step of the worker is one of `WorkerStep`, a step of the menu one of `MenuStep`; where
a function of the source can be preempted between two accesses to what the threads
share, there are two steps.
-/

namespace Cubiboot
namespace Worker

/-- The loops in which the worker looks whether it has to stop. -/
inductive StopLoop where
  /-- `gm_check_files`. -/
  | checkFiles
  /-- `gm_warm_card`. -/
  | warmCard
  /-- `gm_warm_files`. -/
  | warmFiles
deriving DecidableEq, Repr

/-- Where the worker is. -/
inductive WorkerPoint where
  /-- There is no worker, or it has exited. -/
  | exited
  /-- It has been created, and not been resumed. -/
  | suspended
  /-- Before `gm_check_files`. -/
  | listing
  /-- `while(1)`: the card is not readable. -/
  | panic
  /-- At the head of a loop. -/
  | head (loop : StopLoop)
  /-- Between `OSTryLockMutex` and `OSUnlockMutex`. -/
  | locked (loop : StopLoop)
  | body (loop : StopLoop)
  /-- After `gm_check_files`. -/
  | checked
  /-- About to clear `game_enum_running`. -/
  | done
  /-- `game_enum_running` is cleared. -/
  | leaving
deriving DecidableEq, Repr

/-- Who calls `gm_deinit_thread`. -/
inductive Caller where
  /-- `bs2start`. -/
  | bs2start
  /-- `handle_gameselect_inputs`, which then calls `gm_start_thread`. -/
  | inputs
deriving DecidableEq, Repr

/-- Where the menu's thread is. -/
inductive MenuPoint where
  | idle
  /-- `if (game_enum_running)` of `gm_deinit_thread`. -/
  | deinit (caller : Caller)
  | locking (caller : Caller)
  | joining (caller : Caller)
  /-- Asleep in `OSJoinThread`. -/
  | asleep (caller : Caller)
  | unlocking (caller : Caller)
  /-- `if (game_enum_running)` of `gm_start_thread`. -/
  | starting
  /-- About to set `game_enum_running`. -/
  | marking
  /-- About to release the entries. -/
  | releasing
  /-- About to create the thread. -/
  | creating
  /-- About to resume it. -/
  | resuming
deriving DecidableEq, Repr

/-- What both threads look at, and where each of them is. -/
structure EnumState where
  gameEnumRunning : Bool
  warmPending : Bool
  /-- `game_enum_mutex`. -/
  mutex : OSMutex
  /-- `thread_obj`. -/
  thread : OSThread
  gmEntryCount : Nat
  worker : WorkerPoint
  menu : MenuPoint
deriving DecidableEq

/-- Where the worker goes when it is told to stop. -/
def StopLoop.stopped : StopLoop → WorkerPoint
  | .checkFiles => .checked
  | .warmCard => .done
  | .warmFiles => .done

/-- Where the worker goes when a loop is through. -/
def StopLoop.through : StopLoop → WorkerPoint
  | .checkFiles => .checked
  | .warmCard => .done
  | .warmFiles => .head .warmCard

/-- Where the menu goes when `gm_deinit_thread` returns. -/
def Caller.returned : Caller → MenuPoint
  | .bs2start => .idle
  | .inputs => .starting

/-- `gm_thread_worker`. -/
inductive WorkerStep (s : EnumState) : EnumState → Prop where
  | noTarget (h : s.worker = .listing) :
      WorkerStep s { s with worker := .done }
  | unreadable (h : s.worker = .listing) :
      WorkerStep s { s with worker := .panic }
  | listed (h : s.worker = .listing) :
      WorkerStep s { s with worker := .head .checkFiles }
  | through (loop : StopLoop) (h : s.worker = .head loop) :
      WorkerStep s
        { s with
          worker := loop.through
          warmPending := if loop = .warmCard then false else s.warmPending }
  /-- An entry that is no game is passed over. -/
  | noGame (h : s.worker = .head .warmFiles) :
      WorkerStep s s
  | tryLock (loop : StopLoop) (h : s.worker = .head loop)
      (hm : (osTryLockMutex s.mutex .worker).1 = true) :
      WorkerStep s
        { s with worker := .locked loop, mutex := (osTryLockMutex s.mutex .worker).2 }
  | stop (loop : StopLoop) (h : s.worker = .head loop)
      (hm : (osTryLockMutex s.mutex .worker).1 = false) :
      WorkerStep s
        { s with worker := loop.stopped, mutex := (osTryLockMutex s.mutex .worker).2 }
  | unlock (loop : StopLoop) (h : s.worker = .locked loop) :
      WorkerStep s
        { s with worker := .body loop, mutex := osUnlockMutex s.mutex .worker }
  | checkFile (h : s.worker = .body .checkFiles) (added : Bool) :
      WorkerStep s
        { s with
          worker := .head .checkFiles
          gmEntryCount := if added then s.gmEntryCount + 1 else s.gmEntryCount }
  /-- A directory that cannot be read, or is the one of the menu. -/
  | passDirectory (h : s.worker = .body .warmCard) :
      WorkerStep s { s with worker := .head .warmCard }
  | warmDirectory (h : s.worker = .body .warmCard) :
      WorkerStep s { s with worker := .head .warmFiles }
  | warmFile (h : s.worker = .body .warmFiles) :
      WorkerStep s { s with worker := .head .warmFiles }
  | warm (h : s.worker = .checked) (hw : s.warmPending = true) :
      WorkerStep s { s with worker := .head .warmCard }
  | warmed (h : s.worker = .checked) (hw : s.warmPending = false) :
      WorkerStep s { s with worker := .done }
  | clearRunning (h : s.worker = .done) :
      WorkerStep s { s with worker := .leaving, gameEnumRunning := false }
  | exit (h : s.worker = .leaving) :
      WorkerStep s
        { s with
          worker := .exited
          thread := osExitThread s.thread
          mutex := osUnlockAllMutex s.mutex .worker }

/-- `gm_deinit_thread` and `gm_start_thread`. -/
inductive MenuStep (s : EnumState) : EnumState → Prop where
  | deinitIdle (c : Caller) (h : s.menu = .deinit c) (hr : s.gameEnumRunning = false) :
      MenuStep s { s with menu := c.returned }
  | deinit (c : Caller) (h : s.menu = .deinit c) (hr : s.gameEnumRunning = true) :
      MenuStep s { s with menu := .locking c }
  | lock (c : Caller) {mutex : OSMutex} (h : s.menu = .locking c)
      (hm : osLockMutex s.mutex .menu = some mutex) :
      MenuStep s { s with menu := .joining c, mutex := mutex }
  | joinSleeps (c : Caller) (h : s.menu = .joining c)
      (hj : (osJoinThread s.thread).1 = true) :
      MenuStep s { s with menu := .asleep c, thread := (osJoinThread s.thread).2 }
  | join (c : Caller) (h : s.menu = .joining c)
      (hj : (osJoinThread s.thread).1 = false) :
      MenuStep s { s with menu := .unlocking c, thread := (osJoinThread s.thread).2 }
  | woken (c : Caller) (h : s.menu = .asleep c) (hq : s.thread.joinQueue = false) :
      MenuStep s { s with menu := .unlocking c, thread := osJoinThreadWoken s.thread }
  | unlock (c : Caller) (h : s.menu = .unlocking c) :
      MenuStep s { s with menu := c.returned, mutex := osUnlockMutex s.mutex .menu }
  | startRefused (h : s.menu = .starting) (hr : s.gameEnumRunning = true) :
      MenuStep s { s with menu := .idle }
  | start (h : s.menu = .starting) (hr : s.gameEnumRunning = false) :
      MenuStep s { s with menu := .marking }
  | setRunning (h : s.menu = .marking) :
      MenuStep s { s with menu := .releasing, gameEnumRunning := true }
  | releaseEntries (h : s.menu = .releasing) :
      MenuStep s { s with menu := .creating, gmEntryCount := 0 }
  | createThread (h : s.menu = .creating) :
      MenuStep s
        { s with menu := .resuming, worker := .suspended, thread := osCreateThread }
  | resumeThread (h : s.menu = .resuming) :
      MenuStep s { s with menu := .idle, worker := .listing }

/-- Steps of either thread, and calls into the menu's. -/
inductive EnumEvent where
  | call (caller : Caller)
  | menu
  | worker

/-- One step. -/
inductive EnumStep (s : EnumState) : EnumEvent → EnumState → Prop where
  | call (c : Caller) (h : s.menu = .idle) :
      EnumStep s (.call c) { s with menu := .deinit c }
  | menu {s' : EnumState} (h : MenuStep s s') :
      EnumStep s .menu s'
  | worker {s' : EnumState} (h : WorkerStep s s') :
      EnumStep s .worker s'

/-- The menu has come up; it starts the worker, unless the disc is booted at once. -/
structure Booted (s : EnumState) : Prop where
  running : s.gameEnumRunning = false
  warm : s.warmPending = true
  mutex : s.mutex = osInitMutex
  thread : s.thread = .zero
  entries : s.gmEntryCount = 0
  worker : s.worker = .exited
  menu : s.menu = .starting ∨ s.menu = .idle

end Worker
end Cubiboot
