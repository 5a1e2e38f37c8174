import Cubiboot.Foundations.Runs
import Mathlib.Tactic.Common

/-!
# The drive bus

The enumeration worker reads storage while the menu runs, and the menu sends
commands of its own to the drive: `emu_has_dvd` when Z is pressed, and the
passthrough branch of `bs2start`.  No lock guards the bus.  `gm_deinit_thread`
stops the worker, on those paths that call it.

The menu is the list of the operations it still has to carry out; START only
sets `bs2start_ready`, which nothing here looks at.  Both threads
take one operation at a time, in any order; a transfer of the worker stays in
flight while it yields or is preempted.  `bs2start` is called by the IPL, which
is not modelled: here it may be called whenever no input is being handled.

Results: `BusStep.inv`, the step lemma; `drive_bus_exclusive`, the bus over whole runs;
and `z_during_read`, what becomes of a read that Z comes upon.
-/

namespace Cubiboot
namespace Session

open Runs

/-- Where the worker is. -/
inductive WorkerPoint where
  /-- There is no worker, or it has exited. -/
  | exited
  /-- Between two storage commands. -/
  | running
  /-- A storage command has been started and has not completed. -/
  | inFlight
  /-- It will read no more: it was told to stop, or has come to its end. -/
  | stopping
  /-- `game_enum_running` has been cleared. -/
  | leaving
deriving DecidableEq, Repr

/-- Commands the menu sends to the drive itself. -/
inductive DiCommand where
  | reset
  | readId
  | getError
  | stopMotor
  | audioConfig
  | bypassEnter
  | bypassExit
deriving DecidableEq, Repr

/-- Operations of the menu's thread. -/
inductive UiOp where
  | di (command : DiCommand)
  | setPassthrough (on : Bool)
  /-- `if (game_enum_running)` of `gm_deinit_thread`. -/
  | deinitThread
  | lockMutex
  | joinThread
  | unlockMutex
  | startThread
  /-- `start_passthrough_game = 1`. -/
  | requestPassthrough
  | disableInterrupts
  /-- The `memset` of `bs2start`. -/
  | wipe
  /-- Another program takes over. -/
  | leave
deriving DecidableEq, Repr

/-- The flags both threads look at, and where each of them is. -/
structure BusState where
  /-- `emu_is_native()`. -/
  native : Bool
  forceSwissBoot : Bool
  worker : WorkerPoint
  gameEnumRunning : Bool
  /-- `game_enum_mutex` is held by the menu. -/
  mutexHeld : Bool
  passthrough : Bool
  startPassthroughGame : Bool
  interrupts : Bool
  ui : List UiOp
deriving DecidableEq

/-- How the disc answers `dvd_read_id` and `dvd_get_error`. -/
structure DiscAnswer where
  idOk : Bool
  errorOk : Bool

/-- `dvd_read_id() == 0 && dvd_get_error() == 0`. -/
def DiscAnswer.found (d : DiscAnswer) : Bool :=
  d.idOk && d.errorOk

/-- `dvd_custom_bypass_enter`. -/
def dvdCustomBypassEnter (native : Bool) : List UiOp :=
  [.setPassthrough true, .di (if native then .bypassEnter else .reset)]

/-- `dvd_custom_bypass_exit`. -/
def dvdCustomBypassExit (native : Bool) : List UiOp :=
  [.di (if native then .bypassExit else .stopMotor), .setPassthrough false]

/-- The test for a disc in `emu_has_dvd`; the second call is made if the first succeeds. -/
def dvdTest (d : DiscAnswer) : List UiOp :=
  [.di .readId] ++ (if d.idOk then [.di .getError] else []) ++
    (if d.found then [] else [.di .stopMotor])

/-- `emu_has_dvd`. -/
def emuHasDvd (native : Bool) (d : DiscAnswer) : List UiOp :=
  if native then
    dvdCustomBypassEnter native ++ dvdTest d ++ dvdCustomBypassExit native
  else
    [.di .reset] ++ dvdTest d

/-- `handle_gameselect_inputs`, Z. -/
def handleZ (native : Bool) (d : DiscAnswer) : List UiOp :=
  emuHasDvd native d ++ if d.found then [.requestPassthrough] else []

/-- `handle_gameselect_inputs`, A on a directory or B inside one. -/
def handleDirectory : List UiOp :=
  [.deinitThread, .startThread]

/-- The passthrough branch of `bs2start`: the stub reloads the loader when it is there. -/
def bs2startBypass (native : Bool) (d : DiscAnswer) (stub : Bool) : List UiOp :=
  dvdCustomBypassEnter native ++ [.di .readId, .di .getError] ++
    if d.found then
      [.di .audioConfig]
    else
      dvdCustomBypassExit native ++
        if stub then [.leave] else [.di .audioConfig]

/-- `bs2start`. -/
def bs2start (s : BusState) (d : DiscAnswer) (stub : Bool) : List UiOp :=
  (if s.startPassthroughGame = false ∨ s.forceSwissBoot = true then
    [.deinitThread]
  else
    bs2startBypass s.native d stub) ++
    [.disableInterrupts, .wipe, .leave]

/-- Steps of either thread, and calls into the menu's. -/
inductive BusEvent where
  | z (d : DiscAnswer)
  | directory
  | bs2start (d : DiscAnswer) (stub : Bool)
  /-- The menu carries out its next operation. -/
  | ui
  /-- The worker starts a storage command. -/
  | startRead
  | completeRead
  /-- `OSTryLockMutex` of the worker. -/
  | poll
  /-- The worker has come to the end of its work. -/
  | finish
  /-- The worker clears `game_enum_running`. -/
  | clearRunning
  | exit

/-- The menu carries out one operation. -/
inductive UiStep (s : BusState) : UiOp → List UiOp → BusState → Prop where
  | di (c : DiCommand) (rest : List UiOp) :
      UiStep s (.di c) rest { s with ui := rest }
  | setPassthrough (on : Bool) (rest : List UiOp) :
      UiStep s (.setPassthrough on) rest { s with passthrough := on, ui := rest }
  | deinitRunning (rest : List UiOp) (h : s.gameEnumRunning = true) :
      UiStep s .deinitThread rest
        { s with ui := .lockMutex :: .joinThread :: .unlockMutex :: rest }
  | deinitIdle (rest : List UiOp) (h : s.gameEnumRunning = false) :
      UiStep s .deinitThread rest { s with ui := rest }
  | lockMutex (rest : List UiOp) :
      UiStep s .lockMutex rest { s with mutexHeld := true, ui := rest }
  | joinThread (rest : List UiOp) (h : s.worker = .exited) :
      UiStep s .joinThread rest { s with ui := rest }
  | unlockMutex (rest : List UiOp) :
      UiStep s .unlockMutex rest { s with mutexHeld := false, ui := rest }
  | startRefused (rest : List UiOp) (h : s.gameEnumRunning = true) :
      UiStep s .startThread rest { s with ui := rest }
  | startThread (rest : List UiOp) (h : s.gameEnumRunning = false) :
      UiStep s .startThread rest
        { s with gameEnumRunning := true, worker := .running, ui := rest }
  | requestPassthrough (rest : List UiOp) :
      UiStep s .requestPassthrough rest
        { s with startPassthroughGame := true, ui := rest }
  | disableInterrupts (rest : List UiOp) :
      UiStep s .disableInterrupts rest { s with interrupts := false, ui := rest }
  | wipe (rest : List UiOp) :
      UiStep s .wipe rest { s with ui := rest }

/-- One step.  `leave` is never carried out, so nothing follows it. -/
inductive BusStep (s : BusState) : BusEvent → BusState → Prop where
  | z (d : DiscAnswer) (h : s.ui = []) :
      BusStep s (.z d) { s with ui := handleZ s.native d }
  | directory (h : s.ui = []) :
      BusStep s .directory { s with ui := handleDirectory }
  | bs2start (d : DiscAnswer) (stub : Bool) (h : s.ui = []) :
      BusStep s (.bs2start d stub) { s with ui := Session.bs2start s d stub }
  | ui {op : UiOp} {rest : List UiOp} {s' : BusState}
      (h : s.ui = op :: rest) (hs : UiStep s op rest s') :
      BusStep s .ui s'
  | startRead (h : s.worker = .running) (hi : s.interrupts = true) :
      BusStep s .startRead { s with worker := .inFlight }
  | completeRead (h : s.worker = .inFlight) :
      BusStep s .completeRead { s with worker := .running }
  | pollFree (h : s.worker = .running) (hi : s.interrupts = true)
      (hm : s.mutexHeld = false) :
      BusStep s .poll s
  | pollHeld (h : s.worker = .running) (hi : s.interrupts = true)
      (hm : s.mutexHeld = true) :
      BusStep s .poll { s with worker := .stopping }
  | finish (h : s.worker = .running) (hi : s.interrupts = true) :
      BusStep s .finish { s with worker := .stopping }
  | clearRunning (h : s.worker = .stopping) (hi : s.interrupts = true) :
      BusStep s .clearRunning
        { s with worker := .leaving, gameEnumRunning := false }
  | exit (h : s.worker = .leaving) (hi : s.interrupts = true) :
      BusStep s .exit { s with worker := .exited }

/-- The state in which the menu comes up, its list of games still to be started. -/
structure Booted (s : BusState) : Prop where
  worker : s.worker = .exited
  running : s.gameEnumRunning = false
  passthrough : s.passthrough = false
  ui : s.ui = if s.startPassthroughGame then [] else [.startThread]

/-- The operations during which the bus has to be the menu's. -/
def UiOp.NeedsBus : UiOp → Prop
  | .di _ | .wipe => True
  | _ => False

/-- What a step must respect. -/
def BusExclusive (s : BusState) : BusEvent → Prop
  | .ui => ∀ op rest, s.ui = op :: rest → op.NeedsBus → s.worker ≠ .inFlight
  | .startRead => s.passthrough = false
  | _ => True

/--
The condition on a step: Z, and `bs2start` where it does not stop the worker,
find `game_enum_running` clear.
-/
def BusGuard (s : BusState) : BusEvent → Prop
  | .z _ => s.gameEnumRunning = false
  | .bs2start _ _ =>
      s.startPassthroughGame = true → s.forceSwissBoot = false →
        s.gameEnumRunning = false
  | _ => True

/--
What remains to be done is safe from here on: the bus is not used while the
worker may read, and the worker is not started while reads are passed through.
`active` says whether the worker may still read.
-/
def Safe (active passthrough : Bool) : List UiOp → Prop
  | [] => passthrough = false
  | .di _ :: rest => active = false ∧ Safe active passthrough rest
  | .wipe :: rest => active = false ∧ Safe active passthrough rest
  | .setPassthrough on :: rest => active = false ∧ Safe active on rest
  | .deinitThread :: rest => Safe false passthrough rest
  | .joinThread :: rest => Safe false passthrough rest
  | .lockMutex :: rest => Safe active passthrough rest
  | .unlockMutex :: rest => Safe active passthrough rest
  | .requestPassthrough :: rest => Safe active passthrough rest
  | .disableInterrupts :: rest => Safe active passthrough rest
  | .startThread :: rest => passthrough = false ∧ Safe true passthrough rest
  | .leave :: _ => True

/-- The worker may still read exactly while `game_enum_running` is set. -/
def WorkerPoint.active : WorkerPoint → Bool
  | .running | .inFlight | .stopping => true
  | .exited | .leaving => false

/-- What every guarded run keeps. -/
structure BusInv (s : BusState) : Prop where
  running : s.gameEnumRunning = s.worker.active
  safe : Safe s.gameEnumRunning s.passthrough s.ui
  quiet : s.passthrough = true → s.gameEnumRunning = false

variable {s s' : BusState} {op : UiOp} {rest : List UiOp}

/-- Less is asked of the menu once the worker reads no more. -/
theorem Safe.inactive
    {active passthrough : Bool} {ops : List UiOp}
    (h : Safe active passthrough ops) : Safe false passthrough ops := by
  induction ops generalizing passthrough with
  | nil =>
      exact h
  | cons op rest ih =>
      cases op with
      | di c => exact ⟨rfl, ih h.2⟩
      | wipe => exact ⟨rfl, ih h.2⟩
      | setPassthrough on => exact ⟨rfl, ih h.2⟩
      | deinitThread => exact h
      | joinThread => exact h
      | lockMutex => exact ih h
      | unlockMutex => exact ih h
      | requestPassthrough => exact ih h
      | disableInterrupts => exact ih h
      | startThread => exact h
      | leave => trivial

/-- The operations of Z are safe when the worker reads no more. -/
theorem handleZ_safe (native : Bool) (d : DiscAnswer) :
    Safe false false (handleZ native d) := by
  obtain ⟨idOk, errorOk⟩ := d
  cases native <;> cases idOk <;> cases errorOk <;>
    simp [handleZ, emuHasDvd, dvdTest, dvdCustomBypassEnter,
      dvdCustomBypassExit, DiscAnswer.found, Safe]

/-- Leaving or entering a directory stops the worker first. -/
theorem handleDirectory_safe (active : Bool) :
    Safe active false handleDirectory := by
  simp [handleDirectory, Safe]

/-- The passthrough branch, and what follows it. -/
theorem bs2startBypass_safe (native : Bool) (d : DiscAnswer) (stub : Bool) :
    Safe false false
      (bs2startBypass native d stub ++ [.disableInterrupts, .wipe, .leave]) := by
  obtain ⟨idOk, errorOk⟩ := d
  cases native <;> cases idOk <;> cases errorOk <;> cases stub <;>
    simp [bs2startBypass, dvdCustomBypassEnter, dvdCustomBypassExit,
      DiscAnswer.found, Safe]

theorem bs2start_safe
    (d : DiscAnswer) (stub : Bool) (hguard : BusGuard s (.bs2start d stub)) :
    Safe s.gameEnumRunning false (bs2start s d stub) := by
  by_cases hstop : s.startPassthroughGame = false ∨ s.forceSwissBoot = true
  · simp [bs2start, hstop, Safe]
  · have hrunning : s.gameEnumRunning = false := by
      refine hguard ?_ ?_
      · simpa using fun h => hstop (Or.inl h)
      · simpa using fun h => hstop (Or.inr h)
    simp only [bs2start, if_neg hstop, hrunning]
    exact bs2startBypass_safe s.native d stub

/-- One operation of the menu keeps the invariant. -/
theorem UiStep.inv
    (hs : UiStep s op rest s') (h : BusInv s) (hui : s.ui = op :: rest) :
    BusInv s' := by
  have hsafe := h.safe
  rw [hui] at hsafe
  cases hs with
  | di c => exact ⟨h.running, hsafe.2, h.quiet⟩
  | setPassthrough on => exact ⟨h.running, hsafe.2, fun _ => hsafe.1⟩
  | deinitRunning _ hr => exact ⟨h.running, hsafe, h.quiet⟩
  | deinitIdle _ hr =>
      refine ⟨h.running, ?_, h.quiet⟩
      rw [hr]
      exact hsafe
  | lockMutex => exact ⟨h.running, hsafe, h.quiet⟩
  | joinThread _ hexited =>
      have hidle : s.gameEnumRunning = false := by
        rw [h.running, hexited]
        rfl
      refine ⟨h.running, ?_, h.quiet⟩
      rw [hidle]
      exact hsafe
  | unlockMutex => exact ⟨h.running, hsafe, h.quiet⟩
  | startRefused _ hr =>
      refine ⟨h.running, ?_, h.quiet⟩
      rw [hr]
      exact hsafe.2
  | startThread _ hr =>
      refine ⟨rfl, hsafe.2, fun hp => ?_⟩
      exact absurd hp (by simp [hsafe.1])
  | requestPassthrough => exact ⟨h.running, hsafe, h.quiet⟩
  | disableInterrupts => exact ⟨h.running, hsafe, h.quiet⟩
  | wipe => exact ⟨h.running, hsafe.2, h.quiet⟩

/-- One step keeps the invariant. -/
theorem BusStep.inv
    {a : BusEvent} (hs : BusStep s a s') (h : BusInv s) (hguard : BusGuard s a) :
    BusInv s' := by
  have hmenu : s.ui = [] → s.passthrough = false := by
    intro hui
    have hsafe := h.safe
    rw [hui] at hsafe
    exact hsafe
  have hsame : ∀ point, s.worker.active = WorkerPoint.active point →
      BusInv { s with worker := point } := by
    intro point hpoint
    exact ⟨h.running.trans hpoint, h.safe, h.quiet⟩
  cases hs with
  | z d hui =>
      have hidle : s.gameEnumRunning = false := hguard
      refine ⟨h.running, ?_, h.quiet⟩
      rw [hidle, hmenu hui]
      exact handleZ_safe s.native d
  | directory hui =>
      refine ⟨h.running, ?_, h.quiet⟩
      rw [hmenu hui]
      exact handleDirectory_safe s.gameEnumRunning
  | bs2start d stub hui =>
      refine ⟨h.running, ?_, h.quiet⟩
      rw [hmenu hui]
      exact bs2start_safe d stub hguard
  | ui hui hstep => exact hstep.inv h hui
  | startRead hw => exact hsame _ (by rw [hw]; rfl)
  | completeRead hw => exact hsame _ (by rw [hw]; rfl)
  | pollFree => exact h
  | pollHeld hw => exact hsame _ (by rw [hw]; rfl)
  | finish hw => exact hsame _ (by rw [hw]; rfl)
  | clearRunning hw => exact ⟨rfl, h.safe.inactive, fun _ => rfl⟩
  | exit hw => exact hsame _ (by rw [hw]; rfl)

theorem Booted.inv (h : Booted s) : BusInv s := by
  obtain ⟨hworker, hrunning, hpassthrough, hui⟩ := h
  constructor
  · rw [hrunning, hworker]
    rfl
  · rw [hui, hpassthrough]
    split
    · rfl
    · exact ⟨rfl, rfl⟩
  · intro hp
    rw [hpassthrough] at hp
    cases hp

/-- The invariant is all a step needs. -/
theorem BusInv.exclusive
    (h : BusInv s) {a : BusEvent} (hs : BusStep s a s') : BusExclusive s a := by
  cases hs with
  | ui hui hstep =>
      intro op rest hhead hbus hflight
      have hactive : s.gameEnumRunning = true := by
        rw [h.running, hflight]
        rfl
      have hsafe := h.safe
      rw [hhead] at hsafe
      cases op with
      | di c => exact absurd hactive (by simp [hsafe.1])
      | wipe => exact absurd hactive (by simp [hsafe.1])
      | _ => exact hbus
  | startRead hw hi =>
      have hactive : s.gameEnumRunning = true := by
        rw [h.running, hw]
        rfl
      show s.passthrough = false
      by_contra hp
      have hquiet := h.quiet (by simpa using hp)
      rw [hquiet] at hactive
      cases hactive
  | _ => trivial

/--
When Z and the passthrough boot come upon a worker that has finished, the menu
never uses the bus while a read is in flight, and no read is started while reads
are passed through.
-/
theorem drive_bus_exclusive
    {a : BusEvent}
    (hreach : Reachable Booted (Guarded BusStep BusGuard) s)
    (hs : BusStep s a s') :
    BusExclusive s a := by
  have hinv : BusInv s := by
    refine hreach.invariant (fun _ h => h.inv) ?_
    rintro _ _ h ⟨_, hguard, hstep⟩
    exact hstep.inv h hguard
  exact hinv.exclusive hs

/-- The menu of a FlippyDrive after boot. -/
def nativeMenu : BusState where
  native := true
  forceSwissBoot := false
  worker := .exited
  gameEnumRunning := false
  mutexHeld := false
  passthrough := false
  startPassthroughGame := false
  interrupts := true
  ui := [.startThread]

theorem nativeMenu_booted : Booted nativeMenu :=
  ⟨rfl, rfl, rfl, rfl⟩

/-- The same menu, its worker started and at some point of its work. -/
def enumerating (worker : WorkerPoint) : BusState :=
  { nativeMenu with gameEnumRunning := true, worker := worker, ui := [] }

/-- The menu in `emu_has_dvd`, having set the passthrough flag. -/
def lookingForDisc (s : BusState) : BusState :=
  { s with
    passthrough := true
    ui := .di .bypassEnter :: dvdTest ⟨true, true⟩ ++
      dvdCustomBypassExit true ++ [.requestPassthrough] }

theorem z_then_flag
    (hnative : s.native = true) (hui : s.ui = [])
    {guard : BusState → BusEvent → Prop} (hz : guard s (.z ⟨true, true⟩))
    (hflag : ∀ s, guard s .ui)
    (h : Reachable Booted (Guarded BusStep guard) s) :
    Reachable Booted (Guarded BusStep guard) (lookingForDisc s) := by
  have hpressed := h.step ⟨.z ⟨true, true⟩, hz, .z _ hui⟩
  have hops : handleZ s.native ⟨true, true⟩ =
      .setPassthrough true :: (lookingForDisc s).ui := by
    rw [hnative]
    rfl
  exact hpressed.step ⟨.ui, hflag _, .ui hops (.setPassthrough true _)⟩

/--
Z is pressed while the worker has a read in flight: the drive is taken over
under it, and the worker then starts a read that is passed through.
-/
theorem z_during_read :
    ∃ s s', Reachable Booted (Guarded BusStep fun _ _ => True) s ∧
      BusStep s .ui s' ∧ ¬ BusExclusive s .ui ∧
      ∃ t t', Reachable Booted (Guarded BusStep fun _ _ => True) t ∧
        BusStep t .startRead t' ∧ ¬ BusExclusive t .startRead := by
  have hstart : Reachable Booted (Guarded BusStep fun _ _ => True) nativeMenu :=
    Reachable.start nativeMenu_booted
  have hrunning := hstart.step
    ⟨.ui, trivial, .ui rfl (.startThread [] rfl)⟩
  have hflight := hrunning.step ⟨.startRead, trivial, .startRead rfl rfl⟩
  have hlooking := z_then_flag (s := enumerating .inFlight) rfl rfl trivial
    (fun _ => trivial) hflight
  have hdone := hlooking.step ⟨.completeRead, trivial, .completeRead rfl⟩
  refine ⟨_, _, hlooking, .ui rfl (.di .bypassEnter _), ?_,
    _, _, hdone, .startRead rfl rfl, ?_⟩
  · intro h
    exact h _ _ rfl trivial rfl
  · intro h
    cases h

/-- Z is pressed once the worker has exited. -/
theorem drive_bus_exclusive_after_enumeration :
    BusExclusive (lookingForDisc { nativeMenu with ui := [] }) .ui := by
  have hstart : Reachable Booted (Guarded BusStep BusGuard) nativeMenu :=
    Reachable.start nativeMenu_booted
  have hrunning := hstart.step ⟨.ui, trivial, .ui rfl (.startThread [] rfl)⟩
  have hstopping := hrunning.step ⟨.finish, trivial, .finish rfl rfl⟩
  have hleaving := hstopping.step
    ⟨.clearRunning, trivial, .clearRunning rfl rfl⟩
  have hexited := hleaving.step ⟨.exit, trivial, .exit rfl rfl⟩
  have hlooking := z_then_flag (s := { nativeMenu with ui := [] }) rfl rfl rfl
    (fun _ => trivial) hexited
  exact drive_bus_exclusive hlooking (.ui rfl (.di .bypassEnter _))

end Session
end Cubiboot
