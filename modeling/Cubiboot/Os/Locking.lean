import Cubiboot.Foundations.Runs
import Cubiboot.Os.Mutexes
import Cubiboot.Worker.Threads

/-!
# Locking and unlocking

The calls of `dolphin_os.c` that lock and unlock a mutex, made by any threads in any
order, next to what they are for: how often each thread has locked each mutex.

`held t m` counts the locks of thread `t` on mutex `m`. `LockInv` ties the count to the
variables: a mutex that is owned has a positive count, for its owner alone, and stands
once in that thread's queue, where `__OSUnlockAllMutex` finds it when the thread exits.

Results: `LockInv.lock` and `LockInv.unlock`, the calls on one mutex;
`LockInv.unlockAll`, by induction on the queue, the one on all mutexes of a thread;
`LockStep.inv`, the step lemma; and `mutexes_exclude`, that in every run a mutex has one
owner at most, and that who sleeps does so for a mutex of another. The last results
compare a single mutex of these with the one of `Worker.Threads`.
-/

namespace Cubiboot
namespace Os

open Runs

universe u v

variable {ι : Type u} {μ : Type v} [DecidableEq ι] [DecidableEq μ]

/-- `OSInitMutex` of every mutex, and threads that own none. -/
def osInitMutexes : MutexTable ι μ where
  thread := fun _ => none
  count := fun _ => 0
  next := fun _ => none
  prev := fun _ => none
  queue := fun _ => []
  head := fun _ => none
  tail := fun _ => none

/-- `count++`. -/
def MutexTable.again (s : MutexTable ι μ) (m : μ) : MutexTable ι μ :=
  { s with count := Function.update s.count m (s.count m + 1) }

/-- A mutex without an owner gets one. -/
def MutexTable.take (s : MutexTable ι μ) (t : ι) (m : μ) : MutexTable ι μ :=
  ({ s.again m with thread := Function.update s.thread m (some t) }).pushTail t m

/-- `OSSleepThread` of the thread `t` in the queue of a mutex. -/
def MutexTable.sleep (s : MutexTable ι μ) (t : ι) (m : μ) : MutexTable ι μ :=
  { s with queue := Function.update s.queue m (s.queue m ++ [t]) }

/-- A mutex loses its owner, and all who sleep in its queue are woken. -/
def MutexTable.free (s : MutexTable ι μ) (m : μ) : MutexTable ι μ :=
  { s with
    count := Function.update s.count m 0
    thread := Function.update s.thread m none
    queue := Function.update s.queue m [] }

/-- A turn of the loop of `OSLockMutex`; `false` where its caller goes to sleep. -/
def osLockMutex (s : MutexTable ι μ) (currentThread : ι) (m : μ) : Bool × MutexTable ι μ :=
  match s.thread m with
  | none => (true, s.take currentThread m)
  | some ownerThread =>
      if ownerThread = currentThread then (true, s.again m)
      else (false, s.sleep currentThread m)

/-- `OSTryLockMutex`. -/
def osTryLockMutex (s : MutexTable ι μ) (currentThread : ι) (m : μ) : Bool × MutexTable ι μ :=
  match s.thread m with
  | none => (true, s.take currentThread m)
  | some ownerThread =>
      if ownerThread = currentThread then (true, s.again m) else (false, s)

/-- `OSUnlockMutex`. -/
def osUnlockMutex (s : MutexTable ι μ) (currentThread : ι) (m : μ) : MutexTable ι μ :=
  if s.thread m = some currentThread then
    let count := s.count m - 1
    if count = 0 then (s.popItem currentThread m).free m
    else { s with count := Function.update s.count m count }
  else s

/-- `__OSUnlockAllMutex`, for a number of turns of its loop. -/
def osUnlockAllMutex (thread : ι) : Nat → MutexTable ι μ → Option (MutexTable ι μ)
  | 0, _ => none
  | fuel + 1, s =>
      match s.head thread with
      | none => some s
      | some m => osUnlockAllMutex thread fuel ((s.popHead thread m).free m)

section Fields

variable (s : MutexTable ι μ) (t : ι) (m : μ)

theorem take_thread : (s.take t m).thread = Function.update s.thread m (some t) := by
  simp [MutexTable.take, MutexTable.pushTail]

theorem take_count : (s.take t m).count = Function.update s.count m (s.count m + 1) := by
  simp [MutexTable.take, MutexTable.pushTail, MutexTable.again]

theorem take_queue : (s.take t m).queue = s.queue := by
  simp [MutexTable.take, MutexTable.pushTail, MutexTable.again]

theorem release_thread :
    ((s.popItem t m).free m).thread = Function.update s.thread m none := by
  simp [MutexTable.free, MutexTable.popItem]

theorem release_count : ((s.popItem t m).free m).count = Function.update s.count m 0 := by
  simp [MutexTable.free, MutexTable.popItem]

theorem release_queue : ((s.popItem t m).free m).queue = Function.update s.queue m [] := by
  simp [MutexTable.free, MutexTable.popItem]

end Fields

/-- The threads with their mutexes. -/
structure LockSystem (ι : Type u) (μ : Type v) where
  os : MutexTable ι μ
  /-- How often a thread has locked a mutex and not unlocked it. -/
  held : ι → μ → Nat
  /-- The mutex that a thread has gone to sleep for. -/
  waits : ι → Option μ

/-- The holdings with those of one thread and mutex changed. -/
def setHeld (held : ι → μ → Nat) (t : ι) (m : μ) (n : Nat) (u : ι) (x : μ) : Nat :=
  if u = t ∧ x = m then n else held u x

/-- A thread has locked a mutex once more, or has not. -/
def LockSystem.locked (s : LockSystem ι μ) (t : ι) (m : μ) (r : Bool × MutexTable ι μ) :
    LockSystem ι μ where
  os := r.2
  held := if r.1 then setHeld s.held t m (s.held t m + 1) else s.held
  waits := s.waits

/-- A call that any thread makes while it is awake, or the next turn of one. -/
inductive LockStep : LockSystem ι μ → LockSystem ι μ → Prop where
  | lock {s t m} (hawake : ∀ x, t ∉ s.os.queue x)
      (hcall : s.waits t = none ∨ s.waits t = some m) :
      LockStep s { s.locked t m (osLockMutex s.os t m) with
        waits := Function.update s.waits t
          (if (osLockMutex s.os t m).1 then none else some m) }
  | tryLock {s t m} (hawake : ∀ x, t ∉ s.os.queue x) (hcall : s.waits t = none) :
      LockStep s (s.locked t m (osTryLockMutex s.os t m))
  | unlock {s t m} (hawake : ∀ x, t ∉ s.os.queue x) (hcall : s.waits t = none) :
      LockStep s
        { s with
          os := osUnlockMutex s.os t m
          held := setHeld s.held t m (s.held t m - 1) }
  | unlockAll {s t fuel os'} (hawake : ∀ x, t ∉ s.os.queue x) (hcall : s.waits t = none)
      (hdone : osUnlockAllMutex t fuel s.os = some os') :
      LockStep s { s with os := os', held := fun u x => if u = t then 0 else s.held u x }

/-- No thread has called yet. -/
structure Unlocked (s : LockSystem ι μ) : Prop where
  os : s.os = osInitMutexes
  held : ∀ t m, s.held t m = 0
  waits : ∀ t, s.waits t = none

/--
The queue of each thread has the mutexes that it owns, their counts are how often they have
been locked, and who sleeps for a mutex sleeps because another thread owns it.
-/
structure LockInv (os : MutexTable ι μ) (held : ι → μ → Nat) : Prop where
  owned : ∀ t, ∃ l, Queued os t l ∧ ∀ m, m ∈ l ↔ os.thread m = some t
  holder : ∀ t m, os.thread m = some t → 0 < held t m ∧ os.count m = held t m
  others : ∀ t m, os.thread m ≠ some t → held t m = 0
  unowned : ∀ m, os.thread m = none → os.count m = 0
  asleep : ∀ m, ∀ t ∈ os.queue m, ∃ u, u ≠ t ∧ os.thread m = some u

variable {s : LockSystem ι μ} {os os' : MutexTable ι μ} {held : ι → μ → Nat} {t : ι} {m : μ}

omit [DecidableEq ι] [DecidableEq μ] in
/-- Two threads own no mutex together. -/
theorem owned_apart {u : ι} {l l' : List μ} (hl : ∀ x, x ∈ l ↔ os.thread x = some t)
    (hl' : ∀ x, x ∈ l' ↔ os.thread x = some u) (hu : u ≠ t) {x : μ} (hx : x ∈ l) : x ∉ l' := by
  intro hx'
  have heq := ((hl x).1 hx).symm.trans ((hl' x).1 hx')
  exact hu (Option.some.inj heq).symm

omit [DecidableEq ι] [DecidableEq μ] in
theorem LockInv.held_iff (h : LockInv os held) : held t m ≠ 0 ↔ os.thread m = some t := by
  constructor
  · intro hheld
    by_contra hne
    exact hheld (h.others t m hne)
  · intro hthread
    exact Nat.ne_of_gt (h.holder t m hthread).1

omit [DecidableEq ι] [DecidableEq μ] in
theorem LockInv.unheld (h : LockInv os held) (hfree : os.thread m = none) (t : ι) :
    held t m = 0 := by
  refine h.others t m ?_
  rw [hfree]
  exact (Option.some_ne_none t).symm

omit [DecidableEq ι] [DecidableEq μ] in
theorem Unlocked.inv (h : Unlocked s) : LockInv s.os s.held := by
  rw [h.os]
  refine ⟨fun t => ⟨[], ⟨List.nodup_nil, rfl, rfl, trivial⟩, ?_⟩, ?_, fun t m _ => h.held t m,
    fun _ _ => rfl, ?_⟩
  · exact fun m =>
      ⟨fun hm => absurd hm List.not_mem_nil, fun heq => absurd heq (Option.some_ne_none t).symm⟩
  · exact fun t m heq => absurd heq (Option.some_ne_none t).symm
  · exact fun m t ht => absurd ht List.not_mem_nil

/-- Who locks a mutex that nobody owns becomes its owner. -/
theorem LockInv.take (h : LockInv os held) (hfree : os.thread m = none) :
    LockInv (os.take t m) (setHeld held t m (held t m + 1)) := by
  have hheld : held t m = 0 := h.unheld hfree t
  refine ⟨?_, ?_, ?_, ?_, ?_⟩
  · intro u
    obtain ⟨l, hl, hmem⟩ := h.owned u
    have hm : m ∉ l := fun hm => by
      rw [(hmem m).1 hm] at hfree
      cases hfree
    have hl' : Queued ({ os.again m with thread := Function.update os.thread m (some t) }) u l :=
      hl.congr rfl rfl (fun _ _ => rfl) fun _ _ => rfl
    by_cases hu : u = t
    · subst hu
      refine ⟨l ++ [m], hl'.pushTail hm, fun x => ?_⟩
      rw [take_thread, List.mem_append, List.mem_singleton, hmem]
      by_cases hx : x = m
      · simp [hx]
      · simp [hx]
    · refine ⟨l, hl'.pushTail_other hu hm ?_, fun x => ?_⟩
      · intro x hx hxl
        obtain ⟨own, hown, hmem'⟩ := h.owned t
        have hxown : x ∈ own := List.mem_of_getLast? (hown.tail.symm.trans hx)
        exact owned_apart hmem' hmem hu hxown hxl
      · rw [take_thread, hmem]
        by_cases hx : x = m
        · simp [hx, hfree, Ne.symm hu]
        · simp [hx]
  · intro u x hx
    rw [take_thread, Function.update_apply] at hx
    rw [take_count, Function.update_apply, setHeld]
    by_cases hxm : x = m
    · rw [if_pos hxm, Option.some.injEq] at hx
      rw [if_pos ⟨hx.symm, hxm⟩, if_pos hxm, h.unowned m hfree, hheld]
      exact ⟨Nat.one_pos, rfl⟩
    · rw [if_neg hxm] at hx
      rw [if_neg (fun hand => hxm hand.2), if_neg hxm]
      exact h.holder u x hx
  · intro u x hx
    rw [take_thread, Function.update_apply] at hx
    rw [setHeld]
    by_cases hxm : x = m
    · rw [if_pos hxm] at hx
      rw [if_neg (fun hand => hx (by rw [hand.1])), hxm]
      exact h.unheld hfree u
    · rw [if_neg hxm] at hx
      rw [if_neg (fun hand => hxm hand.2)]
      exact h.others u x hx
  · intro x hx
    rw [take_thread, Function.update_apply] at hx
    by_cases hxm : x = m
    · rw [if_pos hxm] at hx
      cases hx
    · rw [if_neg hxm] at hx
      rw [take_count, Function.update_of_ne hxm]
      exact h.unowned x hx
  · intro x u hu
    rw [take_queue] at hu
    obtain ⟨w, hw, hown⟩ := h.asleep x u hu
    have hxm : x ≠ m := by
      rintro rfl
      rw [hfree] at hown
      cases hown
    exact ⟨w, hw, by rw [take_thread, Function.update_of_ne hxm, hown]⟩

/-- The count of a mutex changes with its owner's holdings. -/
theorem LockInv.recount (h : LockInv os held) (hown : os.thread m = some t) {n : Nat}
    (hn : 0 < n) :
    LockInv { os with count := Function.update os.count m n } (setHeld held t m n) := by
  refine ⟨?_, ?_, ?_, ?_, h.asleep⟩
  · intro u
    obtain ⟨l, hl, hmem⟩ := h.owned u
    exact ⟨l, hl.congr rfl rfl (fun _ _ => rfl) (fun _ _ => rfl), hmem⟩
  · intro u x hx
    change os.thread x = some u at hx
    simp only [Function.update_apply, setHeld]
    by_cases hxm : x = m
    · rw [hxm, hown, Option.some.injEq] at hx
      rw [if_pos ⟨hx.symm, hxm⟩, if_pos hxm]
      exact ⟨hn, rfl⟩
    · rw [if_neg (fun hand => hxm hand.2), if_neg hxm]
      exact h.holder u x hx
  · intro u x hx
    change os.thread x ≠ some u at hx
    rw [setHeld, if_neg]
    · exact h.others u x hx
    · rintro ⟨rfl, rfl⟩
      exact hx hown
  · intro x hx
    change os.thread x = none at hx
    have hxm : x ≠ m := by
      rintro rfl
      rw [hown] at hx
      cases hx
    exact (Function.update_of_ne hxm _ _).trans (h.unowned x hx)

/-- The owner locks its mutex once more. -/
theorem LockInv.again (h : LockInv os held) (hown : os.thread m = some t) :
    LockInv (os.again m) (setHeld held t m (held t m + 1)) := by
  have hcount : os.count m + 1 = ((held t m + 1 : Nat) : Int) := by
    rw [(h.holder t m hown).2]
    rfl
  rw [MutexTable.again, hcount]
  exact h.recount hown (Nat.succ_pos _)

omit [DecidableEq ι] in
/-- A thread goes to sleep for a mutex of another. -/
theorem LockInv.sleep (h : LockInv os held) (hown : ∃ u, u ≠ t ∧ os.thread m = some u) :
    LockInv (os.sleep t m) held := by
  refine ⟨?_, h.holder, h.others, h.unowned, ?_⟩
  · intro u
    obtain ⟨l, hl, hmem⟩ := h.owned u
    exact ⟨l, hl.congr rfl rfl (fun _ _ => rfl) (fun _ _ => rfl), hmem⟩
  · intro x u hu
    simp only [MutexTable.sleep, Function.update_apply] at hu
    by_cases hxm : x = m
    · rw [if_pos hxm, List.mem_append, List.mem_singleton] at hu
      rw [hxm]
      rcases hu with hu | hu
      · exact h.asleep m u hu
      · rw [hu]
        exact hown
    · rw [if_neg hxm] at hu
      exact h.asleep x u hu

/-- A mutex is taken out of its owner's queue and freed. -/
theorem LockInv.release (h : LockInv os held) (hown : os.thread m = some t) :
    LockInv ((os.popItem t m).free m) (setHeld held t m 0) := by
  obtain ⟨own, hqueued, hown'⟩ := h.owned t
  obtain ⟨l, r, rfl⟩ := List.append_of_mem ((hown' m).2 hown)
  refine ⟨?_, ?_, ?_, ?_, ?_⟩
  · intro u
    by_cases hu : u = t
    · subst hu
      refine ⟨l ++ r, hqueued.popItem.congr rfl rfl (fun _ _ => rfl) (fun _ _ => rfl),
        fun x => ?_⟩
      have hnodup := List.perm_middle.nodup_iff.1 hqueued.nodup
      rw [release_thread, Function.update_apply]
      by_cases hxm : x = m
      · rw [if_pos hxm, hxm]
        exact ⟨fun hm => absurd hm (List.nodup_cons.1 hnodup).1,
          fun heq => absurd heq (Option.some_ne_none u).symm⟩
      · rw [if_neg hxm, ← hown' x]
        simp [hxm]
    · obtain ⟨l', hl', hmem⟩ := h.owned u
      have hpop := hl'.popItem_other hu hqueued fun x hx => owned_apart hown' hmem hu hx
      refine ⟨l', hpop.congr rfl rfl (fun _ _ => rfl) (fun _ _ => rfl), fun x => ?_⟩
      rw [release_thread, hmem, Function.update_apply]
      by_cases hxm : x = m
      · simp [hxm, hown, Ne.symm hu]
      · rw [if_neg hxm]
  · intro u x hx
    rw [release_thread, Function.update_apply] at hx
    by_cases hxm : x = m
    · rw [if_pos hxm] at hx
      cases hx
    · rw [if_neg hxm] at hx
      rw [release_count, Function.update_of_ne hxm, setHeld, if_neg (fun hand => hxm hand.2)]
      exact h.holder u x hx
  · intro u x hx
    rw [release_thread, Function.update_apply] at hx
    rw [setHeld]
    split
    · rfl
    · rename_i hne
      by_cases hxm : x = m
      · refine h.others u x ?_
        rw [hxm, hown]
        exact fun heq => hne ⟨(Option.some.inj heq).symm, hxm⟩
      · rw [if_neg hxm] at hx
        exact h.others u x hx
  · intro x hx
    rw [release_count, Function.update_apply]
    by_cases hxm : x = m
    · rw [if_pos hxm]
    · rw [release_thread, Function.update_of_ne hxm] at hx
      rw [if_neg hxm]
      exact h.unowned x hx
  · intro x u hu
    rw [release_queue, Function.update_apply] at hu
    by_cases hxm : x = m
    · rw [if_pos hxm] at hu
      exact absurd hu List.not_mem_nil
    · rw [if_neg hxm] at hu
      rw [release_thread, Function.update_of_ne hxm]
      exact h.asleep x u hu

/-- Who asks for a mutex gets it, or somebody else owns it. -/
theorem LockInv.lock (h : LockInv os held) (t : ι) (m : μ) :
    (∃ u, u ≠ t ∧ os.thread m = some u ∧
      osLockMutex os t m = (false, os.sleep t m) ∧ osTryLockMutex os t m = (false, os)) ∨
      (∀ u, u ≠ t → held u m = 0) ∧ ∃ os',
        osLockMutex os t m = (true, os') ∧ osTryLockMutex os t m = (true, os') ∧
        LockInv os' (setHeld held t m (held t m + 1)) := by
  simp only [osLockMutex, osTryLockMutex]
  cases hown : os.thread m with
  | none =>
      exact .inr ⟨fun u _ => h.unheld hown u, _, rfl, rfl, h.take hown⟩
  | some u =>
      by_cases hu : u = t
      · subst hu
        refine .inr ⟨fun w hw => h.others w m ?_, _, if_pos rfl, if_pos rfl, h.again hown⟩
        rw [hown]
        exact fun heq => hw (Option.some.inj heq).symm
      · exact .inl ⟨u, hu, rfl, if_neg hu, if_neg hu⟩

/-- `OSUnlockMutex` takes back one lock of its caller, if there is one. -/
theorem LockInv.unlock (h : LockInv os held) (t : ι) (m : μ) :
    LockInv (osUnlockMutex os t m) (setHeld held t m (held t m - 1)) := by
  rw [osUnlockMutex]
  by_cases hown : os.thread m = some t
  · obtain ⟨hpos, hcount⟩ := h.holder t m hown
    rw [if_pos hown]
    by_cases hlast : held t m = 1
    · rw [if_pos (by omega), hlast]
      exact h.release hown
    · have hpred : os.count m - 1 = ((held t m - 1 : Nat) : Int) := by omega
      rw [if_neg (by omega)]
      simp only [hpred]
      exact h.recount hown (by omega)
  · have hzero := h.others t m hown
    have hsame : setHeld held t m (held t m - 1) = held := by
      funext u x
      rw [setHeld]
      split
      · rename_i hux
        rw [hux.1, hux.2, hzero]
      · rfl
    rw [if_neg hown, hsame]
    exact h

/-- A turn for each mutex that the thread owns, and `__OSUnlockAllMutex` has freed them all. -/
theorem LockInv.unlockAll_run {l : List μ} (h : LockInv os held) (hl : Queued os t l)
    (hmem : ∀ x, x ∈ l ↔ os.thread x = some t) {fuel : Nat} (hfuel : l.length < fuel) :
    ∃ os', osUnlockAllMutex t fuel os = some os' ∧
      LockInv os' fun u x => if u = t then 0 else held u x := by
  induction l generalizing os held fuel with
  | nil =>
      obtain ⟨fuel, rfl⟩ := Nat.exists_eq_add_one.2 (Nat.zero_lt_of_lt hfuel)
      have hsame : (fun u x => if u = t then 0 else held u x) = held := by
        funext u x
        split
        · rename_i hu
          rw [hu, h.others t x fun hx => absurd ((hmem x).2 hx) List.not_mem_nil]
        · rfl
      refine ⟨os, ?_, ?_⟩
      · rw [osUnlockAllMutex, hl.head]
        rfl
      · rw [hsame]
        exact h
  | cons m l ih =>
      obtain ⟨fuel, rfl⟩ := Nat.exists_eq_add_one.2 (Nat.zero_lt_of_lt hfuel)
      have hown := (hmem m).1 List.mem_cons_self
      have hrest : Queued ((os.popItem t m).free m) t l :=
        (Queued.popItem (l := []) hl).congr rfl rfl (fun _ _ => rfl) fun _ _ => rfl
      have hmem' : ∀ x, x ∈ l ↔ ((os.popItem t m).free m).thread x = some t := by
        intro x
        rw [release_thread, Function.update_apply]
        by_cases hxm : x = m
        · rw [if_pos hxm, hxm]
          exact ⟨fun hm => absurd hm (List.nodup_cons.1 hl.nodup).1,
            fun heq => absurd heq (Option.some_ne_none t).symm⟩
        · rw [if_neg hxm, ← hmem x, List.mem_cons, or_iff_right hxm]
      obtain ⟨os', hrun, hinv⟩ := ih (h.release hown) hrest hmem' (Nat.lt_of_succ_lt_succ hfuel)
      have hsame : (fun u x => if u = t then 0 else setHeld held t m 0 u x) =
          fun u x => if u = t then 0 else held u x := by
        funext u x
        by_cases hu : u = t
        · rw [if_pos hu, if_pos hu]
        · rw [if_neg hu, if_neg hu, setHeld, if_neg fun hand => hu hand.1]
      refine ⟨os', ?_, ?_⟩
      · rw [osUnlockAllMutex, hl.head]
        simp only [List.head?_cons, hl.popHead_eq]
        exact hrun
      · rw [← hsame]
        exact hinv

/-- More turns of `__OSUnlockAllMutex` than it needs change nothing. -/
theorem osUnlockAllMutex_mono {fuel fuel' : Nat} (h : osUnlockAllMutex t fuel os = some os')
    (hle : fuel ≤ fuel') : osUnlockAllMutex t fuel' os = some os' := by
  induction fuel generalizing fuel' os with
  | zero => cases h
  | succ fuel ih =>
      obtain ⟨fuel', rfl⟩ := Nat.exists_eq_add_one.2 (Nat.zero_lt_of_lt hle)
      rw [osUnlockAllMutex] at h ⊢
      cases hhead : os.head t with
      | none =>
          rw [hhead] at h
          exact h
      | some m =>
          rw [hhead] at h
          exact ih h (Nat.le_of_succ_le_succ hle)

theorem LockInv.unlockAll (h : LockInv os held) {fuel : Nat}
    (hdone : osUnlockAllMutex t fuel os = some os') :
    LockInv os' fun u x => if u = t then 0 else held u x := by
  obtain ⟨l, hl, hmem⟩ := h.owned t
  obtain ⟨os'', hrun, hinv⟩ := h.unlockAll_run hl hmem (Nat.lt_succ_self l.length)
  have hfirst := osUnlockAllMutex_mono hdone (Nat.le_max_left fuel (l.length + 1))
  have hsecond := osUnlockAllMutex_mono hrun (Nat.le_max_right fuel (l.length + 1))
  rw [hfirst, Option.some.injEq] at hsecond
  rw [hsecond]
  exact hinv

/-- `__OSUnlockAllMutex` leaves the mutexes of other threads. -/
theorem LockInv.unlockAll_other (h : LockInv os held) {fuel : Nat}
    (hdone : osUnlockAllMutex t fuel os = some os') (hm : os.thread m ≠ some t) :
    os'.thread m = os.thread m ∧ os'.count m = os.count m := by
  induction fuel generalizing os held with
  | zero => cases hdone
  | succ fuel ih =>
      rw [osUnlockAllMutex] at hdone
      obtain ⟨l, hl, hmem⟩ := h.owned t
      cases l with
      | nil =>
          rw [hl.head] at hdone
          cases hdone
          exact ⟨rfl, rfl⟩
      | cons x l =>
          have hown := (hmem x).1 List.mem_cons_self
          have hmx : m ≠ x := by
            rintro rfl
            exact hm hown
          have hthread : ((os.popItem t x).free x).thread m = os.thread m := by
            rw [release_thread, Function.update_of_ne hmx]
          have hcount : ((os.popItem t x).free x).count m = os.count m := by
            rw [release_count, Function.update_of_ne hmx]
          rw [hl.head] at hdone
          simp only [List.head?_cons, hl.popHead_eq] at hdone
          obtain ⟨hthread', hcount'⟩ := ih (h.release hown) hdone (by rw [hthread]; exact hm)
          exact ⟨hthread'.trans hthread, hcount'.trans hcount⟩

theorem LockStep.inv {s' : LockSystem ι μ} (hstep : LockStep s s')
    (h : LockInv s.os s.held) : LockInv s'.os s'.held := by
  cases hstep with
  | @lock t m hawake hcall =>
      obtain ⟨u, hu, hown, hlock, _⟩ | ⟨_, os', hlock, _, hinv⟩ := h.lock t m
      · simp only [LockSystem.locked, hlock]
        exact h.sleep ⟨u, hu, hown⟩
      · simp only [LockSystem.locked, hlock]
        exact hinv
  | @tryLock t m hawake hcall =>
      obtain ⟨u, hu, hown, _, hlock⟩ | ⟨_, os', _, hlock, hinv⟩ := h.lock t m
      · simp only [LockSystem.locked, hlock]
        exact h
      · simp only [LockSystem.locked, hlock]
        exact hinv
  | @unlock t m hawake hcall => exact h.unlock t m
  | unlockAll hawake hcall hdone => exact h.unlockAll hdone

theorem reachable_lockInv (h : Reachable Unlocked LockStep s) : LockInv s.os s.held :=
  h.invariant (fun _ => Unlocked.inv) fun _ _ hinv hstep => hstep.inv hinv

/--
Whatever the threads lock and unlock, and in whatever order they run: no two hold one mutex,
`OSLockMutex` and `OSTryLockMutex` give a mutex exactly where no other thread holds it, a thread
sleeps for a mutex only while another holds it, the queue of a thread links exactly the mutexes
that it holds, and `__OSUnlockAllMutex` returns after a turn for each of them and one more.
-/
theorem mutexes_exclude (h : Reachable Unlocked LockStep s) :
    (∀ m t u, s.held t m ≠ 0 → s.held u m ≠ 0 → t = u) ∧
      (∀ t m, ((osLockMutex s.os t m).1 = true ↔ ∀ u, u ≠ t → s.held u m = 0) ∧
        (osTryLockMutex s.os t m).1 = (osLockMutex s.os t m).1) ∧
      (∀ m, ∀ t ∈ s.os.queue m, ∃ u, u ≠ t ∧ s.held u m ≠ 0) ∧
      ∀ t, ∃ l, Queued s.os t l ∧ (∀ m, m ∈ l ↔ s.held t m ≠ 0) ∧
        ∃ os', osUnlockAllMutex t (l.length + 1) s.os = some os' ∧
          ∀ m, os'.thread m ≠ some t := by
  have hinv := reachable_lockInv h
  refine ⟨?_, ?_, ?_, ?_⟩
  · intro m t u ht hu
    have heq := (hinv.held_iff.1 ht).symm.trans (hinv.held_iff.1 hu)
    exact Option.some.inj heq
  · intro t m
    obtain ⟨u, hu, hown, hlock, htry⟩ | ⟨hothers, os', hlock, htry, _⟩ := hinv.lock t m
    · rw [hlock, htry]
      refine ⟨⟨fun heq => absurd heq Bool.false_ne_true, fun hall => ?_⟩, rfl⟩
      exact absurd (hall u hu) (hinv.held_iff.2 hown)
    · rw [hlock, htry]
      exact ⟨⟨fun _ => hothers, fun _ => rfl⟩, rfl⟩
  · intro m t ht
    obtain ⟨u, hu, hown⟩ := hinv.asleep m t ht
    exact ⟨u, hu, hinv.held_iff.2 hown⟩
  · intro t
    obtain ⟨l, hl, hmem⟩ := hinv.owned t
    obtain ⟨os', hrun, hinv'⟩ := hinv.unlockAll_run hl hmem (Nat.lt_succ_self l.length)
    refine ⟨l, hl, fun m => (hmem m).trans hinv.held_iff.symm, os', hrun, fun m hown => ?_⟩
    exact hinv'.held_iff.2 hown (if_pos rfl)

/-- A mutex of the table, as the model of the enumeration worker has it. -/
def MutexTable.mutex (s : MutexTable Worker.ThreadId μ) (m : μ) : Worker.OSMutex where
  thread := s.thread m
  count := s.count m

section OneMutex

variable (s : MutexTable Worker.ThreadId μ) (t : Worker.ThreadId) (m : μ)

theorem take_mutex : (s.take t m).mutex m = ⟨some t, s.count m + 1⟩ := by
  simp [MutexTable.mutex, take_thread, take_count]

theorem again_mutex : (s.again m).mutex m = ⟨s.thread m, s.count m + 1⟩ := by
  simp [MutexTable.mutex, MutexTable.again]

/-- The worker's `OSLockMutex` is this one, seen at its mutex. -/
theorem osLockMutex_mutex :
    Worker.osLockMutex (s.mutex m) t =
      if (osLockMutex s t m).1 then some ((osLockMutex s t m).2.mutex m) else none := by
  rw [Worker.osLockMutex, osLockMutex]
  simp only [MutexTable.mutex]
  cases hown : s.thread m with
  | none => exact congrArg some (take_mutex s t m).symm
  | some u =>
      by_cases hu : u = t
      · simp only [if_pos hu]
        have hagain := again_mutex s m
        rw [hown] at hagain
        exact congrArg some hagain.symm
      · simp only [if_neg hu]
        rfl

/-- The worker's `OSTryLockMutex` is this one, seen at its mutex. -/
theorem osTryLockMutex_mutex :
    Worker.osTryLockMutex (s.mutex m) t =
      ((osTryLockMutex s t m).1, (osTryLockMutex s t m).2.mutex m) := by
  rw [Worker.osTryLockMutex, osTryLockMutex]
  simp only [MutexTable.mutex]
  cases hown : s.thread m with
  | none => exact congrArg (Prod.mk true) (take_mutex s t m).symm
  | some u =>
      by_cases hu : u = t
      · simp only [if_pos hu]
        have hagain := again_mutex s m
        rw [hown] at hagain
        exact congrArg (Prod.mk true) hagain.symm
      · simp only [if_neg hu, hown]

/-- The worker's `OSUnlockMutex` is this one, seen at its mutex. -/
theorem osUnlockMutex_mutex :
    Worker.osUnlockMutex (s.mutex m) t = (osUnlockMutex s t m).mutex m := by
  rw [Worker.osUnlockMutex, osUnlockMutex]
  by_cases hown : s.thread m = some t
  · rw [if_pos hown, if_pos (show (s.mutex m).thread = some t from hown)]
    by_cases hlast : s.count m - 1 = 0
    · simp [MutexTable.mutex, hlast, MutexTable.free]
    · simp [MutexTable.mutex, hlast]
  · rw [if_neg hown, if_neg (show (s.mutex m).thread ≠ some t from hown)]

end OneMutex

/-- The worker's `__OSUnlockAllMutex` is this one, seen at its mutex. -/
theorem LockInv.osUnlockAllMutex_mutex {os os' : MutexTable Worker.ThreadId μ}
    {held : Worker.ThreadId → μ → Nat} (h : LockInv os held) {t : Worker.ThreadId} {fuel : Nat}
    (hdone : osUnlockAllMutex t fuel os = some os') (m : μ) :
    Worker.osUnlockAllMutex (os.mutex m) t = os'.mutex m := by
  rw [Worker.osUnlockAllMutex]
  by_cases hown : os.thread m = some t
  · -- The thread has left the mutex to nobody: it was its own.
    have hinv := h.unlockAll hdone
    have hfree : os'.thread m = none := by
      cases hown' : os'.thread m with
      | none => rfl
      | some u =>
          have hpos := (hinv.holder u m hown').1
          by_cases hu : u = t
          · rw [if_pos hu] at hpos
            cases hpos
          · have hzero : held u m = 0 := by
              refine h.others u m ?_
              rw [hown]
              exact fun heq => hu (Option.some.inj heq).symm
            rw [if_neg hu, hzero] at hpos
            cases hpos
    rw [if_pos (show (os.mutex m).thread = some t from hown), MutexTable.mutex, hfree,
      hinv.unowned m hfree]
  · obtain ⟨hthread, hcount⟩ := h.unlockAll_other hdone hown
    rw [if_neg (show (os.mutex m).thread ≠ some t from hown)]
    simp only [MutexTable.mutex, hthread, hcount]

/-- A menu and a worker that have not locked anything. -/
def bothAwake : LockSystem Bool Bool where
  os := osInitMutexes
  held := fun _ _ => 0
  waits := fun _ => none

/-- The worker has the mutex. -/
def workerLocked : LockSystem Bool Bool :=
  bothAwake.locked true true (osTryLockMutex bothAwake.os true true)

/-- The menu sleeps for it. -/
def menuSleeps : LockSystem Bool Bool :=
  { workerLocked.locked false true (osLockMutex workerLocked.os false true) with
    waits := Function.update workerLocked.waits false
      (if (osLockMutex workerLocked.os false true).1 then none else some true) }

theorem menuSleeps_reached : Reachable Unlocked LockStep menuSleeps := by
  have hstart : Unlocked bothAwake := ⟨rfl, fun _ _ => rfl, fun _ => rfl⟩
  have hlocks : LockStep bothAwake workerLocked := .tryLock (fun _ => List.not_mem_nil) rfl
  have hsleeps : LockStep workerLocked menuSleeps := by
    refine .lock (fun x => ?_) (.inl rfl)
    exact List.not_mem_nil
  exact ((Reachable.start hstart).step hlocks).step hsleeps

theorem mutexes_exclude_asleep :
    false ∈ menuSleeps.os.queue true ∧ ∃ u, u ≠ false ∧ menuSleeps.held u true ≠ 0 :=
  ⟨List.mem_singleton.2 rfl,
    (mutexes_exclude menuSleeps_reached).2.2.1 true false (List.mem_singleton.2 rfl)⟩

end Os
end Cubiboot
