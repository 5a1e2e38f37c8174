import Mathlib.Tactic.Common

/-!
# Mutexes and joining

`OSTryLockMutex`, `OSLockMutex`, `OSUnlockMutex` and `OSJoinThread` of
`dolphin_os.c`, for the mutex and the thread of the enumeration worker.  They
disable interrupts, so that each is one step up to where its caller goes to sleep.

`OSCreateThread` and the exit of a thread are the system's.

A mutex has an owner and a count, and a thread its state and whether another one waits
for its exit. A call that puts its caller to sleep is in two parts: the one before,
which says that the caller sleeps, and the one that the woken caller goes on with. With
more threads and more mutexes the same calls are in `Os.Mutexes` and `Os.Locking`.
-/

namespace Cubiboot
namespace Worker

/-- The threads that use the mutex. -/
inductive ThreadId where
  | menu
  | worker
deriving DecidableEq, Repr

/-- `OSMutex`. -/
structure OSMutex where
  thread : Option ThreadId
  count : Int
deriving DecidableEq

/-- `OSInitMutex`. -/
def osInitMutex : OSMutex :=
  ⟨none, 0⟩

/-- `OSTryLockMutex`. -/
def osTryLockMutex (mutex : OSMutex) (currentThread : ThreadId) : Bool × OSMutex :=
  match mutex.thread with
  | none => (true, ⟨some currentThread, mutex.count + 1⟩)
  | some owner =>
      if owner = currentThread then
        (true, { mutex with count := mutex.count + 1 })
      else
        (false, mutex)

/-- One turn of the loop of `OSLockMutex`, unless its caller goes to sleep. -/
def osLockMutex (mutex : OSMutex) (currentThread : ThreadId) : Option OSMutex :=
  match mutex.thread with
  | none => some ⟨some currentThread, mutex.count + 1⟩
  | some owner =>
      if owner = currentThread then
        some { mutex with count := mutex.count + 1 }
      else
        none

/-- `OSUnlockMutex`. -/
def osUnlockMutex (mutex : OSMutex) (currentThread : ThreadId) : OSMutex :=
  if mutex.thread = some currentThread then
    if mutex.count - 1 = 0 then
      ⟨none, 0⟩
    else
      { mutex with count := mutex.count - 1 }
  else
    mutex

/-- `__OSUnlockAllMutex`. -/
def osUnlockAllMutex (mutex : OSMutex) (thread : ThreadId) : OSMutex :=
  if mutex.thread = some thread then ⟨none, 0⟩ else mutex

/-- `state` of a thread. -/
inductive ThreadState where
  /-- 0: never created, or joined. -/
  | idle
  /-- Ready, running or waiting. -/
  | live
  /-- 8: it has exited. -/
  | moribund
deriving DecidableEq, Repr

/-- `OSThread`, as far as joining looks at it. -/
structure OSThread where
  state : ThreadState
  /-- Bit 0 of `attributes`. -/
  detached : Bool
  /-- A thread sleeps in `join_queue`. -/
  joinQueue : Bool
  /-- It is in the queue of active threads. -/
  active : Bool
deriving DecidableEq

/-- `thread_obj` at boot. -/
def OSThread.zero : OSThread :=
  ⟨.idle, false, false, false⟩

/-- `OSCreateThread`, with no attributes. -/
def osCreateThread : OSThread :=
  ⟨.live, false, false, true⟩

/-- The exit of a thread: who sleeps in `join_queue` is woken. -/
def osExitThread (thread : OSThread) : OSThread :=
  if thread.detached then
    { thread with state := .idle, joinQueue := false, active := false }
  else
    { thread with state := .moribund, joinQueue := false }

/-- `__OSIsThreadActive`. -/
def osIsThreadActive (thread : OSThread) : Bool :=
  if thread.state = .idle then false else thread.active

/-- The end of `OSJoinThread`: the thread goes, if it has exited. -/
def joinExited (thread : OSThread) : OSThread :=
  if thread.state = .moribund then
    { thread with state := .idle, active := false }
  else
    thread

/-- `OSJoinThread`, and whether its caller goes to sleep. -/
def osJoinThread (thread : OSThread) : Bool × OSThread :=
  if thread.detached = false ∧ thread.state ≠ .moribund ∧ thread.joinQueue = false then
    (true, { thread with joinQueue := true })
  else
    (false, joinExited thread)

/-- `OSJoinThread` once its caller has been woken. -/
def osJoinThreadWoken (thread : OSThread) : OSThread :=
  if osIsThreadActive thread = false then thread else joinExited thread

end Worker
end Cubiboot
