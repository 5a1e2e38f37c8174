import Mathlib.Data.List.Basic
import Mathlib.Data.UInt
import Mathlib.Logic.Function.Iterate
import Cubiboot.Foundations.FuelLoop

/-!
# Data under a stream of key bytes

A generator gives a key byte and its next state; data are combined with the bytes it
gives one after the other. Combining twice from one state gives the data back, and what
comes after other data is combined from the state that these leave.

A generator of bits makes a key byte of eight of them; a loop that is clocked bit by bit
and changes a byte of its data whenever one is full combines them with these key bytes.

Results: `crypt_crypt`, `crypt_append` and `crypt_congr`, the last of which compares two
generators by a relation of their states; and `BitMachine.run_eq`, the loop.
-/

namespace Cubiboot
namespace KeyStream

universe u v

variable {σ : Type u} {τ : Type v} (next : σ → UInt8 × σ)

/-- Data combined with the key bytes from a state on. -/
def crypt : σ → List UInt8 → List UInt8
  | _, [] => []
  | s, b :: data => (b ^^^ (next s).1) :: crypt (next s).2 data

/-- The state after some key bytes. -/
def after : σ → Nat → σ
  | s, 0 => s
  | s, n + 1 => after (next s).2 n

variable {next}

@[simp]
theorem crypt_length (s : σ) (data : List UInt8) : (crypt next s data).length = data.length := by
  induction data generalizing s with
  | nil => rfl
  | cons b data ih => simp [crypt, ih]

theorem crypt_append (s : σ) (data more : List UInt8) :
    crypt next s (data ++ more) =
      crypt next s data ++ crypt next (after next s data.length) more := by
  induction data generalizing s with
  | nil => rfl
  | cons b data ih => simp [crypt, after, ih]

/-- The same key bytes give the data back. -/
theorem crypt_crypt (s : σ) (data : List UInt8) : crypt next s (crypt next s data) = data := by
  induction data generalizing s with
  | nil => rfl
  | cons b data ih =>
      simp only [crypt, ih]
      rw [UInt8.xor_assoc, UInt8.xor_self, UInt8.xor_zero]

/-- Generators that give the same bytes from related states. -/
theorem crypt_congr {other : τ → UInt8 × τ} (R : σ → τ → Prop)
    (hstep : ∀ s t, R s t → (next s).1 = (other t).1 ∧ R (next s).2 (other t).2) {s : σ} {t : τ}
    (h : R s t) (data : List UInt8) : crypt next s data = crypt other t data := by
  induction data generalizing s t with
  | nil => rfl
  | cons b data ih =>
      obtain ⟨hbyte, hnext⟩ := hstep s t h
      simp [crypt, hbyte, ih hnext]

/-- A generator that is clocked for each bit of a key byte. -/
structure BitMachine (σ : Type u) where
  clock : σ → σ
  full : σ → Bool
  byte : σ → UInt8
  reset : σ → σ

variable {m : BitMachine σ} {s : σ}

/-- A key byte takes eight clocks. -/
def BitMachine.keyByte (m : BitMachine σ) (s : σ) : UInt8 × σ :=
  (m.byte (m.clock^[8] s), m.reset (m.clock^[8] s))

/-- The states between two key bytes. -/
structure BitMachine.Bytewise (m : BitMachine σ) (Start : σ → Prop) : Prop where
  filling : ∀ s, Start s → ∀ k, k < 7 → m.full (m.clock^[k + 1] s) = false
  full : ∀ s, Start s → m.full (m.clock^[8] s) = true
  reset : ∀ s, Start s → Start (m.reset (m.clock^[8] s))

/-- A bit of the loop over `size` bytes: the state, the place and the data. -/
def BitMachine.step (m : BitMachine σ) (size : Nat) (s : σ × Nat × List UInt8) :
    Option ((σ × Nat × List UInt8) ⊕ List UInt8) :=
  if s.2.1 < size then
    if m.full (m.clock s.1) then
      match s.2.2[s.2.1]? with
      | none => none
      | some b =>
          some (.inl (m.reset (m.clock s.1), s.2.1 + 1,
            s.2.2.set s.2.1 (b ^^^ m.byte (m.clock s.1))))
    else some (.inl (m.clock s.1, s.2))
  else some (.inr s.2.2)

/-- The loop over `size` bytes. -/
def BitMachine.run (m : BitMachine σ) (s : σ) (size : Nat) (data : List UInt8) :
    Option (List UInt8) :=
  FuelLoop.run (m.step size) (8 * size + 1) (s, 0, data)

/-- The clocks before a key byte is full. -/
theorem BitMachine.run_filling {size it : Nat} (data : List UInt8) (hit : it < size)
    (fuel : Nat) {k : Nat} (hk : ∀ i < k, m.full (m.clock^[i + 1] s) = false) :
    FuelLoop.run (m.step size) (fuel + k) (s, it, data) =
      FuelLoop.run (m.step size) fuel (m.clock^[k] s, it, data) := by
  induction k generalizing s with
  | zero => rfl
  | succ k ih =>
      have hstep : m.step size (s, it, data) = some (.inl (m.clock s, it, data)) := by
        have hfirst := hk 0 (Nat.succ_pos k)
        simp_all [BitMachine.step]
      have hrest : ∀ i < k, m.full (m.clock^[i + 1] (m.clock s)) = false := fun i hi =>
        hk (i + 1) (Nat.succ_lt_succ hi)
      calc FuelLoop.run (m.step size) (fuel + k + 1) (s, it, data)
          = FuelLoop.run (m.step size) (fuel + k) (m.clock s, it, data) := by
            simp only [FuelLoop.run, hstep]
        _ = FuelLoop.run (m.step size) fuel (m.clock^[k] (m.clock s), it, data) := ih hrest
        _ = _ := rfl

/-- The loop combines what is left of its bytes. -/
theorem BitMachine.run_from {Start : σ → Prop} (hm : m.Bytewise Start)
    (before todo rest : List UInt8) (hs : Start s) :
    FuelLoop.run (m.step (before.length + todo.length)) (8 * todo.length + 1)
        (s, before.length, before ++ (todo ++ rest)) =
      some (before ++ (crypt m.keyByte s todo ++ rest)) := by
  induction todo generalizing s before with
  | nil => simp [FuelLoop.run, BitMachine.step, crypt]
  | cons b todo ih =>
      have hit : before.length < before.length + (b :: todo).length := by simp
      have hfilling := m.run_filling (before ++ (b :: todo ++ rest)) hit
        (8 * todo.length + 1 + 1) (hm.filling s hs)
      have hclock : m.clock (m.clock^[7] s) = m.clock^[8] s :=
        (Function.iterate_succ_apply' m.clock 7 s).symm
      have hget : (before ++ (b :: todo ++ rest))[before.length]? = some b := by simp
      have hset : (before ++ (b :: todo ++ rest)).set before.length (b ^^^ (m.keyByte s).1) =
          before ++ [b ^^^ (m.keyByte s).1] ++ (todo ++ rest) := by
        simp
      have hstep : m.step (before.length + (b :: todo).length)
          (m.clock^[7] s, before.length, before ++ (b :: todo ++ rest)) =
            some (.inl ((m.keyByte s).2, before.length + 1,
              before ++ [b ^^^ (m.keyByte s).1] ++ (todo ++ rest))) := by
        rw [← hset]
        simp only [BitMachine.step, hit, hclock, hm.full s hs, hget, if_true]
        rfl
      have hlater := ih (before ++ [b ^^^ (m.keyByte s).1]) (hm.reset s hs)
      have hlen : (before ++ [b ^^^ (m.keyByte s).1]).length = before.length + 1 := by simp
      have hsize : before.length + 1 + todo.length = before.length + (b :: todo).length := by
        simp only [List.length_cons]
        omega
      rw [hlen, hsize] at hlater
      calc FuelLoop.run (m.step (before.length + (b :: todo).length))
            (8 * (b :: todo).length + 1) (s, before.length, before ++ (b :: todo ++ rest))
          = FuelLoop.run (m.step (before.length + (b :: todo).length)) (8 * todo.length + 1 + 1)
              (m.clock^[7] s, before.length, before ++ (b :: todo ++ rest)) := by
            rw [← hfilling]
            rfl
        _ = FuelLoop.run (m.step (before.length + (b :: todo).length)) (8 * todo.length + 1)
              ((m.keyByte s).2, before.length + 1,
                before ++ [b ^^^ (m.keyByte s).1] ++ (todo ++ rest)) := by
            rw [FuelLoop.run, hstep]
        _ = some (before ++ (crypt m.keyByte s (b :: todo) ++ rest)) := by
            refine hlater.trans ?_
            simp [crypt, BitMachine.keyByte]

/-- The loop combines the first bytes of its data with the key bytes. -/
theorem BitMachine.run_eq {Start : σ → Prop} (hm : m.Bytewise Start) (hs : Start s) {size : Nat}
    {data : List UInt8} (hsize : size ≤ data.length) :
    m.run s size data = some (crypt m.keyByte s (data.take size) ++ data.drop size) := by
  have hrun := m.run_from hm [] (data.take size) (data.drop size) hs
  have hlen : (data.take size).length = size := by simp [hsize]
  simpa [BitMachine.run, hlen] using hrun

end KeyStream
end Cubiboot
