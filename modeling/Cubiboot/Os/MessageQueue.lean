import Mathlib.Logic.Function.Basic
import Cubiboot.Foundations.CircularQueue
import Cubiboot.Foundations.Runs

/-!
# Message queues between threads

`OSSendMessage` and `OSReceiveMessage` of `dolphin_os.c`, called by any number of
threads. Interrupts are disabled in them, so that each is one step up to where its
caller goes to sleep; a thread that has been woken takes another turn of its loop,
whenever it is scheduled.

`OSSleepThread` puts the caller into a queue of threads and `OSWakeupThread` wakes all
threads of a queue; they are functions of the IPL.

Results: `MqInv.send` and `MqInv.receive`, a turn of either call; `MqInv.turn`, that no
turn leaves the array; and `messages_in_order`, that what has been received and what is
still queued is what has been sent, in its order, and who sleeps has a reason to.
-/

namespace Cubiboot
namespace Os

open CircularQueue Runs

universe u v

variable {ι : Type u} {μ : Type v}

/-- `OSMessageQueue`, with the threads that are asleep in its queues. -/
structure OSMessageQueue (ι : Type u) (μ : Type v) where
  sendingQueue : List ι
  receivingQueue : List ι
  messageArray : List μ
  numMessages : Nat
  firstIndex : Nat
  numUsed : Nat

/-- `OSInitMessageQueue`. -/
def osInitMessageQueue (msgArray : List μ) (msgCount : Nat) : OSMessageQueue ι μ where
  sendingQueue := []
  receivingQueue := []
  messageArray := msgArray
  numMessages := msgCount
  firstIndex := 0
  numUsed := 0

/-- What a turn of a loop comes to: the call returns, or its caller goes to sleep. -/
inductive Turn (ι : Type u) (μ : Type v) where
  | returned (sent : Option μ) (mq : OSMessageQueue ι μ)
  | asleep (mq : OSMessageQueue ι μ)

/-- A turn of the loop of `OSSendMessage`; `none` is an access outside of the array. -/
def osSendMessage (mq : OSMessageQueue ι μ) (currentThread : ι) (msg : μ) (block : Bool) :
    Option (Turn ι μ) :=
  if mq.numMessages ≤ mq.numUsed then
    if block then
      some (.asleep { mq with sendingQueue := mq.sendingQueue ++ [currentThread] })
    else some (.returned none mq)
  else
    let lastIndex := (mq.firstIndex + mq.numUsed) % mq.numMessages
    if lastIndex < mq.messageArray.length then
      some (.returned (some msg)
        { mq with
          messageArray := mq.messageArray.set lastIndex msg
          numUsed := mq.numUsed + 1
          receivingQueue := [] })
    else none

/-- A turn of the loop of `OSReceiveMessage`; what is returned is `*msg`. -/
def osReceiveMessage (mq : OSMessageQueue ι μ) (currentThread : ι) (block : Bool) :
    Option (Turn ι μ) :=
  if mq.numUsed = 0 then
    if block then
      some (.asleep { mq with receivingQueue := mq.receivingQueue ++ [currentThread] })
    else some (.returned none mq)
  else
    match mq.messageArray[mq.firstIndex]? with
    | none => none
    | some msg =>
        some (.returned (some msg)
          { mq with
            firstIndex := (mq.firstIndex + 1) % mq.numMessages
            numUsed := mq.numUsed - 1
            sendingQueue := [] })

/-- A call that a thread is in. -/
inductive MqCall (μ : Type v) where
  | send (msg : μ) (block : Bool)
  | receive (block : Bool)

/-- The threads, the queue and all messages that were sent and received. -/
structure MqSystem (ι : Type u) (μ : Type v) where
  mq : OSMessageQueue ι μ
  calls : ι → Option (MqCall μ)
  sent : List μ
  received : List μ

/-- A turn of the loop of a call. -/
def MqCall.turn (mq : OSMessageQueue ι μ) (t : ι) : MqCall μ → Option (Turn ι μ)
  | .send msg block => osSendMessage mq t msg block
  | .receive block => osReceiveMessage mq t block

/-- What thread `t` leaves after a turn of its call. -/
def MqSystem.after [DecidableEq ι] (s : MqSystem ι μ) (t : ι) (c : MqCall μ) :
    Turn ι μ → MqSystem ι μ
  | .asleep mq => { s with mq := mq, calls := Function.update s.calls t (some c) }
  | .returned moved mq =>
      match c with
      | .send _ _ =>
          { s with
            mq := mq
            calls := Function.update s.calls t none
            sent := s.sent ++ moved.toList }
      | .receive _ =>
          { s with
            mq := mq
            calls := Function.update s.calls t none
            received := s.received ++ moved.toList }

/-- A thread that is not asleep. -/
def MqSystem.Awake (s : MqSystem ι μ) (t : ι) : Prop :=
  t ∉ s.mq.sendingQueue ∧ t ∉ s.mq.receivingQueue

/-- A thread may take a turn: it makes a call, or goes on with one after it was woken. -/
def MqSystem.Turns (s : MqSystem ι μ) (t : ι) (c : MqCall μ) : Prop :=
  s.Awake t ∧ (s.calls t = none ∨ s.calls t = some c)

/-- Any thread that may take a turn does. -/
def MqStep [DecidableEq ι] (s s' : MqSystem ι μ) : Prop :=
  ∃ t c r, s.Turns t c ∧ c.turn s.mq t = some r ∧ s' = s.after t c r

/-- The queue has been initialised with an array, and no thread has called. -/
structure Initialised (s : MqSystem ι μ) : Prop where
  mq : ∃ msgArray, s.mq = osInitMessageQueue msgArray msgArray.length
  calls : ∀ t, s.calls t = none
  sent : s.sent = []
  received : s.received = []

/-- Messages are in the queue in the order they were sent, and nobody sleeps who could go on. -/
structure MqInv (s : MqSystem ι μ) : Prop where
  array : s.mq.messageArray.length = s.mq.numMessages
  first : 0 < s.mq.numMessages → s.mq.firstIndex < s.mq.numMessages
  inOrder : ∃ queued, s.sent = s.received ++ queued ∧
    Holds s.mq.messageArray s.mq.firstIndex s.mq.numUsed queued
  senders : ∀ t ∈ s.mq.sendingQueue, s.mq.numUsed = s.mq.numMessages ∧
    ∃ msg, s.calls t = some (.send msg true)
  receivers : ∀ t ∈ s.mq.receivingQueue, s.mq.numUsed = 0 ∧ s.calls t = some (.receive true)

variable {s : MqSystem ι μ} {t : ι}

theorem Initialised.inv (h : Initialised s) : MqInv s := by
  obtain ⟨msgArray, hmq⟩ := h.mq
  refine ⟨?_, ?_, ⟨[], ?_, ?_⟩, ?_, ?_⟩
  · rw [hmq]
    rfl
  · rw [hmq]
    exact id
  · rw [h.sent, h.received]
    rfl
  · rw [hmq]
    exact Holds.nil msgArray 0
  · rw [hmq]
    exact fun t ht => absurd ht List.not_mem_nil
  · rw [hmq]
    exact fun t ht => absurd ht List.not_mem_nil

theorem MqInv.numUsed_le (h : MqInv s) : s.mq.numUsed ≤ s.mq.numMessages := by
  obtain ⟨queued, _, hholds⟩ := h.inOrder
  rw [← h.array]
  exact hholds.room

variable [DecidableEq ι] {c : MqCall μ}

/-- The call of a thread that is asleep does not change with the call of another. -/
theorem MqSystem.Awake.other (h : s.Awake t) {u : ι}
    (hu : u ∈ s.mq.sendingQueue ∨ u ∈ s.mq.receivingQueue) (c : Option (MqCall μ)) :
    Function.update s.calls t c u = s.calls u := by
  refine Function.update_of_ne ?_ _ _
  rintro rfl
  exact hu.elim h.1 h.2

/-- A call that does not block returns without an effect. -/
theorem MqInv.refused (h : MqInv s) (hawake : s.Awake t) (c : MqCall μ) :
    MqInv (s.after t c (.returned none s.mq)) := by
  have hsenders : ∀ u ∈ s.mq.sendingQueue, s.mq.numUsed = s.mq.numMessages ∧
      ∃ msg, Function.update s.calls t none u = some (.send msg true) := by
    intro u hu
    obtain ⟨hused, msg, hcall⟩ := h.senders u hu
    exact ⟨hused, msg, (hawake.other (.inl hu) none).trans hcall⟩
  have hreceivers : ∀ u ∈ s.mq.receivingQueue, s.mq.numUsed = 0 ∧
      Function.update s.calls t none u = some (.receive true) := by
    intro u hu
    obtain ⟨hused, hcall⟩ := h.receivers u hu
    exact ⟨hused, (hawake.other (.inr hu) none).trans hcall⟩
  cases c with
  | send msg block =>
      refine ⟨h.array, h.first, ?_, hsenders, hreceivers⟩
      simp only [MqSystem.after, Option.toList_none, List.append_nil]
      exact h.inOrder
  | receive block =>
      refine ⟨h.array, h.first, ?_, hsenders, hreceivers⟩
      simp only [MqSystem.after, Option.toList_none, List.append_nil]
      exact h.inOrder

/-- A sender goes to sleep at a full queue. -/
theorem MqInv.send_sleeps (h : MqInv s) (hawake : s.Awake t) (msg : μ)
    (hfull : s.mq.numMessages ≤ s.mq.numUsed) :
    MqInv (s.after t (.send msg true)
      (.asleep { s.mq with sendingQueue := s.mq.sendingQueue ++ [t] })) where
  array := h.array
  first := h.first
  inOrder := h.inOrder
  senders := by
    intro u hu
    rcases List.mem_append.1 hu with hu | hu
    · obtain ⟨hused, m, hcall⟩ := h.senders u hu
      exact ⟨hused, m, (hawake.other (.inl hu) _).trans hcall⟩
    · obtain rfl := List.mem_singleton.1 hu
      exact ⟨Nat.le_antisymm h.numUsed_le hfull, msg, Function.update_self _ _ _⟩
  receivers := by
    intro u hu
    obtain ⟨hused, hcall⟩ := h.receivers u hu
    exact ⟨hused, (hawake.other (.inr hu) _).trans hcall⟩

/-- A receiver goes to sleep at an empty queue. -/
theorem MqInv.receive_sleeps (h : MqInv s) (hawake : s.Awake t) (hempty : s.mq.numUsed = 0) :
    MqInv (s.after t (.receive true)
      (.asleep { s.mq with receivingQueue := s.mq.receivingQueue ++ [t] })) where
  array := h.array
  first := h.first
  inOrder := h.inOrder
  senders := by
    intro u hu
    obtain ⟨hused, m, hcall⟩ := h.senders u hu
    exact ⟨hused, m, (hawake.other (.inl hu) _).trans hcall⟩
  receivers := by
    intro u hu
    rcases List.mem_append.1 hu with hu | hu
    · obtain ⟨hused, hcall⟩ := h.receivers u hu
      exact ⟨hused, (hawake.other (.inr hu) _).trans hcall⟩
    · obtain rfl := List.mem_singleton.1 hu
      exact ⟨hempty, Function.update_self _ _ _⟩

/-- A turn of `OSSendMessage`. -/
theorem MqInv.send (h : MqInv s) (hawake : s.Awake t) (msg : μ) (block : Bool) :
    ∃ r, osSendMessage s.mq t msg block = some r ∧ MqInv (s.after t (.send msg block) r) := by
  rw [osSendMessage]
  by_cases hfull : s.mq.numMessages ≤ s.mq.numUsed
  · rw [if_pos hfull]
    cases block with
    | true => exact ⟨_, rfl, h.send_sleeps hawake msg hfull⟩
    | false => exact ⟨_, rfl, h.refused hawake _⟩
  · have hpos : 0 < s.mq.numMessages := by omega
    have hlast : (s.mq.firstIndex + s.mq.numUsed) % s.mq.numMessages <
        s.mq.messageArray.length := by
      rw [h.array]
      exact Nat.mod_lt _ hpos
    obtain ⟨queued, hsent, hholds⟩ := h.inOrder
    have hpush := hholds.push (by rw [h.array]; omega) msg
    rw [h.array] at hpush
    rw [if_neg hfull]
    simp only [if_pos hlast]
    refine ⟨_, rfl, List.length_set.trans h.array, h.first, ⟨queued ++ [msg], ?_, hpush⟩, ?_, ?_⟩
    · simp only [MqSystem.after, Option.toList_some, hsent, List.append_assoc]
    · -- The queue was not full, so that no sender was asleep.
      intro u hu
      exact absurd (h.senders u hu).1 (by omega)
    · exact fun u hu => absurd hu List.not_mem_nil

/-- A turn of `OSReceiveMessage`. -/
theorem MqInv.receive (h : MqInv s) (hawake : s.Awake t) (block : Bool) :
    ∃ r, osReceiveMessage s.mq t block = some r ∧ MqInv (s.after t (.receive block) r) := by
  rw [osReceiveMessage]
  by_cases hempty : s.mq.numUsed = 0
  · rw [if_pos hempty]
    cases block with
    | true => exact ⟨_, rfl, h.receive_sleeps hawake hempty⟩
    | false => exact ⟨_, rfl, h.refused hawake _⟩
  · obtain ⟨queued, hsent, hholds⟩ := h.inOrder
    have hcount := hholds.count
    have hle := h.numUsed_le
    cases queued with
    | nil => exact absurd hcount hempty
    | cons msg queued =>
        have hpos : 0 < s.mq.numMessages := by omega
        obtain ⟨hfirst, hrest⟩ := hholds.pop (by rw [h.array]; exact h.first hpos)
        rw [h.array] at hrest
        rw [if_neg hempty]
        simp only [hfirst]
        refine ⟨_, rfl, h.array, fun _ => Nat.mod_lt _ hpos, ⟨queued, ?_, hrest⟩, ?_, ?_⟩
        · simp only [MqSystem.after, Option.toList_some, hsent, List.append_assoc,
            List.singleton_append]
        · exact fun u hu => absurd hu List.not_mem_nil
        · -- The queue was not empty, so that no receiver was asleep.
          intro u hu
          exact absurd (h.receivers u hu).1 hempty

/-- A turn of any thread stays within the array and keeps the invariant. -/
theorem MqInv.turn (h : MqInv s) (ht : s.Turns t c) :
    ∃ r, c.turn s.mq t = some r ∧ MqInv (s.after t c r) := by
  cases c with
  | send msg block => exact h.send ht.1 msg block
  | receive block => exact h.receive ht.1 block

theorem reachable_mqInv (h : Reachable Initialised MqStep s) : MqInv s := by
  refine h.invariant (fun _ => Initialised.inv) ?_
  rintro s _ hinv ⟨t, c, r, hturns, hturn, rfl⟩
  obtain ⟨r', hr', hinv'⟩ := hinv.turn hturns
  rw [hturn] at hr'
  cases hr'
  exact hinv'

/--
Whatever the threads send and receive, and in whatever order they run: no turn leaves the
array, messages are received once and in the order they were sent, no more are waiting than
there is room for, and a thread is asleep only while it has nothing to do.
-/
theorem messages_in_order (h : Reachable Initialised MqStep s) :
    (∀ t c, s.Turns t c → ∃ r, c.turn s.mq t = some r) ∧
      (∃ queued, s.sent = s.received ++ queued ∧ queued.length = s.mq.numUsed) ∧
      s.mq.numUsed ≤ s.mq.numMessages ∧
      (∀ t ∈ s.mq.sendingQueue, s.mq.numUsed = s.mq.numMessages) ∧
      ∀ t ∈ s.mq.receivingQueue, s.mq.numUsed = 0 := by
  have hinv := reachable_mqInv h
  obtain ⟨queued, hsent, hholds⟩ := hinv.inOrder
  refine ⟨fun t c ht => ?_, ⟨queued, hsent, hholds.count.symm⟩, hinv.numUsed_le,
    fun t ht => (hinv.senders t ht).1, fun t ht => (hinv.receivers t ht).1⟩
  obtain ⟨r, hr, _⟩ := hinv.turn ht
  exact ⟨r, hr⟩

/-- A queue with room for one message. -/
def oneSlot : MqSystem Bool Nat where
  mq := osInitMessageQueue [0] 1
  calls := fun _ => none
  sent := []
  received := []

/-- A thread waits for a message. -/
def waiting : MqSystem Bool Nat :=
  oneSlot.after true (.receive true) (.asleep { oneSlot.mq with receivingQueue := [true] })

/-- Another thread has sent it. -/
def handedOver : MqSystem Bool Nat :=
  waiting.after false (.send 5 true)
    (.returned (some 5) { waiting.mq with messageArray := [5], numUsed := 1, receivingQueue := [] })

theorem handedOver_reached : Reachable Initialised MqStep handedOver := by
  have hstart : Initialised oneSlot := ⟨⟨[0], rfl⟩, fun _ => rfl, rfl, rfl⟩
  have hwaits : MqStep oneSlot waiting :=
    ⟨true, .receive true, _, ⟨⟨List.not_mem_nil, List.not_mem_nil⟩, .inl rfl⟩, rfl, rfl⟩
  have hsends : MqStep waiting handedOver := by
    refine ⟨false, .send 5 true, _, ⟨⟨List.not_mem_nil, ?_⟩, .inl rfl⟩, rfl, rfl⟩
    exact fun hmem => Bool.noConfusion (List.mem_singleton.1 hmem)
  exact ((Reachable.start hstart).step hwaits).step hsends

theorem messages_in_order_handed :
    ∃ queued, [5] = [] ++ queued ∧ queued.length = handedOver.mq.numUsed :=
  (messages_in_order handedOver_reached).2.1

end Os
end Cubiboot
