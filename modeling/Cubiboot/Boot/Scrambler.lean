import Cubiboot.Foundations.KeyStream

/-!
# The ROM's scrambling

`descrambler.c` undoes it on the console and `iplscramble.py` does it when a ROM is
built. Both are the same three shift registers, clocked for every bit, over machine
words in one and over numbers in the other.

`SameScrambler` relates the two sets of registers: each word of the one is the number of
the other, which Python has cut by hand. One clock keeps the relation, so the key bytes
are equal one by one, whatever the data.

Results: `SameScrambler.clock` and `SameScrambler.keyByte`, the steps; `descrambler_eq`
and `scramble_eq`, that both programs combine their data with the same stream, which is
why one undoes the other.
-/

namespace Cubiboot
namespace Boot

open KeyStream

/-- The variables of `Descrambler` but the data and the place in them. -/
structure Scrambler where
  acc : UInt8
  nacc : UInt8
  t : UInt16
  u : UInt16
  v : UInt16
  x : UInt8

def Scrambler.start : Scrambler :=
  ⟨0, 0, 0x2953, 0xd9c2, 0x3ff1, 1⟩

/-- The body of the loop up to its `if (nacc == 8)`. -/
def Scrambler.clock (s : Scrambler) : Scrambler :=
  let t0 := s.t &&& 1
  let t1 := (s.t >>> 1) &&& 1
  let u0 := s.u &&& 1
  let u1 := (s.u >>> 1) &&& 1
  let v0 := s.v &&& 1
  let x := s.x ^^^ (t1 ^^^ v0).toUInt8
  let x := x ^^^ (u0 ||| u1).toUInt8
  let x := x ^^^ ((t0 ^^^ u1 ^^^ v0) &&& (t0 ^^^ u0)).toUInt8
  { v := if t0 = u0 then (if v0 ≠ 0 then (s.v >>> 1) ^^^ 0xb3d0 else s.v >>> 1) else s.v
    u := if t0 = 0 then (if u0 ≠ 0 then (s.u >>> 1) ^^^ 0xfb10 else s.u >>> 1) else s.u
    t := if t0 ≠ 0 then (s.t >>> 1) ^^^ 0xa740 else s.t >>> 1
    x := x
    nacc := s.nacc + 1
    acc := 2 * s.acc + x }

def scramblerMachine : BitMachine Scrambler where
  clock := Scrambler.clock
  full := fun s => s.nacc == 8
  byte := Scrambler.acc
  reset := fun s => { s with nacc := 0 }

/-- `Descrambler`. -/
def descrambler (data : List UInt8) (size : Nat) : Option (List UInt8) :=
  scramblerMachine.run Scrambler.start size data

/-- The variables of `scramble` but the data and the place in them. -/
structure PyScrambler where
  acc : Nat
  nacc : Nat
  t : Nat
  u : Nat
  v : Nat
  x : Nat

def PyScrambler.start : PyScrambler :=
  ⟨0, 0, 0x2953, 0xD9C2, 0x3FF1, 1⟩

/-- The body of the loop up to its `if nacc == 8`. -/
def PyScrambler.clock (s : PyScrambler) : PyScrambler :=
  let t0 := s.t &&& 1
  let t1 := (s.t >>> 1) &&& 1
  let u0 := s.u &&& 1
  let u1 := (s.u >>> 1) &&& 1
  let v0 := s.v &&& 1
  let x := s.x ^^^ (t1 ^^^ v0)
  let x := x ^^^ (u0 ||| u1)
  let x := x ^^^ ((t0 ^^^ u1 ^^^ v0) &&& (t0 ^^^ u0))
  { v := if t0 = u0 then (if v0 ≠ 0 then (s.v >>> 1) ^^^ 0xB3D0 else s.v >>> 1) else s.v
    u := if t0 = 0 then (if u0 ≠ 0 then (s.u >>> 1) ^^^ 0xFB10 else s.u >>> 1) else s.u
    t := if t0 ≠ 0 then (s.t >>> 1) ^^^ 0xA740 else s.t >>> 1
    x := x
    nacc := (s.nacc + 1) % 256
    acc := (s.acc * 2 + x) % 256 }

def pyMachine : BitMachine PyScrambler where
  clock := PyScrambler.clock
  full := fun s => s.nacc == 8
  byte := fun s => UInt8.ofNat s.acc
  reset := fun s => { s with nacc := 0 }

/-- `scramble`. -/
def scramble (data : List UInt8) : Option (List UInt8) :=
  pyMachine.run PyScrambler.start data.length data

theorem scramblerMachine_nacc (s : Scrambler) (k : Nat) :
    (scramblerMachine.clock^[k] s).nacc = s.nacc + UInt8.ofNat k := by
  induction k generalizing s with
  | zero => simp
  | succ k ih =>
      have hclock : (scramblerMachine.clock s).nacc = s.nacc + 1 := rfl
      have hnat : UInt8.ofNat (k + 1) = 1 + UInt8.ofNat k := by
        rw [UInt8.ofNat_add, UInt8.add_comm]
        rfl
      rw [Function.iterate_succ_apply, ih, hclock, hnat, UInt8.add_assoc]

theorem scramblerMachine_bytewise : scramblerMachine.Bytewise fun s => s.nacc = 0 where
  filling := fun s hs k hk => by
    have hnacc := scramblerMachine_nacc s (k + 1)
    rw [hs, UInt8.zero_add] at hnacc
    have hne : ∀ k < 7, UInt8.ofNat (k + 1) ≠ 8 := by decide
    show ((scramblerMachine.clock^[k + 1] s).nacc == 8) = false
    rw [hnacc]
    exact beq_eq_false_iff_ne.2 (hne k hk)
  full := fun s hs => by
    have hnacc := scramblerMachine_nacc s 8
    rw [hs, UInt8.zero_add] at hnacc
    show ((scramblerMachine.clock^[8] s).nacc == 8) = true
    rw [hnacc]
    rfl
  reset := fun _ _ => rfl

/-- The same variables, as words and as numbers. -/
structure SameScrambler (s : Scrambler) (p : PyScrambler) : Prop where
  acc : s.acc.toNat = p.acc
  nacc : s.nacc.toNat = p.nacc
  t : s.t.toNat = p.t
  u : s.u.toNat = p.u
  v : s.v.toNat = p.v
  x : s.x.toNat = p.x

theorem SameScrambler.start : SameScrambler Scrambler.start PyScrambler.start :=
  ⟨rfl, rfl, rfl, rfl, rfl, rfl⟩

theorem toNat_shift (a : UInt16) : (a >>> 1).toNat = a.toNat >>> 1 :=
  UInt16.toNat_shiftRight a 1

theorem toNat_bit (a : UInt16) : (a &&& 1).toNat = a.toNat &&& 1 :=
  UInt16.toNat_and a 1

theorem toNat_eq_zero (a : UInt16) : a = 0 ↔ a.toNat = 0 :=
  UInt16.toNat_inj.symm

/-- A register that is shifted, with its feedback. -/
theorem toNat_feedback (a mask : UInt16) :
    (if a &&& 1 ≠ 0 then (a >>> 1) ^^^ mask else a >>> 1).toNat =
      if a.toNat &&& 1 ≠ 0 then (a.toNat >>> 1) ^^^ mask.toNat else a.toNat >>> 1 := by
  have hiff : a &&& 1 ≠ 0 ↔ a.toNat &&& 1 ≠ 0 := by
    rw [Ne, toNat_eq_zero, toNat_bit]
  by_cases h : a &&& 1 ≠ 0
  · rw [if_pos h, if_pos (hiff.1 h), UInt16.toNat_xor, toNat_shift]
  · rw [if_neg h, if_neg (mt hiff.2 h), toNat_shift]

theorem toNat_ite {P Q : Prop} [Decidable P] [Decidable Q] (h : P ↔ Q) {a b : UInt16} {n m : Nat}
    (ha : a.toNat = n) (hb : b.toNat = m) :
    (if P then a else b).toNat = if Q then n else m := by
  by_cases hp : P
  · rw [if_pos hp, if_pos (h.1 hp), ha]
  · rw [if_neg hp, if_neg (mt h.2 hp), hb]

theorem toUInt8_bits {a : UInt16} {n : Nat} (h : a.toNat = n) (hn : n < 2) :
    a.toUInt8.toNat = n := by
  rw [UInt16.toNat_toUInt8, h]
  exact Nat.mod_eq_of_lt (hn.trans (by decide))

theorem bit_lt (n : Nat) : n &&& 1 < 2 :=
  Nat.lt_succ_of_le Nat.and_le_right

/-- A clock on words is a clock on numbers. -/
theorem SameScrambler.clock {s : Scrambler} {p : PyScrambler} (h : SameScrambler s p) :
    SameScrambler s.clock p.clock := by
  obtain ⟨hacc, hnacc, ht, hu, hv, hx⟩ := h
  have hx' : s.clock.x.toNat = p.clock.x := by
    simp only [Scrambler.clock, PyScrambler.clock, UInt8.toNat_xor]
    have h₁ : (((s.t >>> 1) &&& 1) ^^^ (s.v &&& 1)).toUInt8.toNat =
        ((p.t >>> 1) &&& 1) ^^^ (p.v &&& 1) :=
      toUInt8_bits (by simp only [UInt16.toNat_xor, toNat_bit, toNat_shift, ht, hv])
        (Nat.xor_lt_two_pow (n := 1) (bit_lt _) (bit_lt _))
    have h₂ : ((s.u &&& 1 : UInt16) ||| ((s.u >>> 1) &&& 1 : UInt16)).toUInt8.toNat =
        (p.u &&& 1) ||| ((p.u >>> 1) &&& 1) :=
      toUInt8_bits (by simp only [UInt16.toNat_or, toNat_bit, toNat_shift, hu])
        (Nat.or_lt_two_pow (n := 1) (bit_lt _) (bit_lt _))
    have h₃ : (((s.t &&& 1 : UInt16) ^^^ ((s.u >>> 1) &&& 1 : UInt16) ^^^ (s.v &&& 1 : UInt16)) &&&
          ((s.t &&& 1 : UInt16) ^^^ (s.u &&& 1 : UInt16))).toUInt8.toNat =
        ((p.t &&& 1) ^^^ ((p.u >>> 1) &&& 1) ^^^ (p.v &&& 1)) &&& ((p.t &&& 1) ^^^ (p.u &&& 1)) :=
      toUInt8_bits
        (by
          rw [UInt16.toNat_and]
          simp only [UInt16.toNat_xor, toNat_bit, toNat_shift, ht, hu, hv])
        (Nat.lt_of_le_of_lt Nat.and_le_right
          (Nat.xor_lt_two_pow (n := 1) (bit_lt _) (bit_lt _)))
    rw [h₁, h₂, h₃, hx]
  have htu : s.t &&& 1 = s.u &&& 1 ↔ p.t &&& 1 = p.u &&& 1 := by
    rw [← UInt16.toNat_inj, toNat_bit, toNat_bit, ht, hu]
  have ht0 : s.t &&& 1 = 0 ↔ p.t &&& 1 = 0 := by
    rw [toNat_eq_zero, toNat_bit, ht]
  refine ⟨?_, ?_, ?_, ?_, ?_, hx'⟩
  · have hclock : s.clock.acc = 2 * s.acc + s.clock.x := rfl
    have hpy : p.clock.acc = (p.acc * 2 + p.clock.x) % 256 := rfl
    have htwo : (2 : UInt8).toNat = 2 := rfl
    rw [hclock, hpy, UInt8.toNat_add, UInt8.toNat_mul, hacc, hx', htwo, Nat.mod_add_mod,
      Nat.mul_comm]
  · have hclock : s.clock.nacc = s.nacc + 1 := rfl
    have hpy : p.clock.nacc = (p.nacc + 1) % 256 := rfl
    rw [hclock, hpy, UInt8.toNat_add, hnacc]
    rfl
  · have hshift := toNat_feedback s.t 0xa740
    rw [ht] at hshift
    exact hshift
  · have hshift := toNat_feedback s.u 0xfb10
    rw [hu] at hshift
    exact toNat_ite ht0 hshift hu
  · have hshift := toNat_feedback s.v 0xb3d0
    rw [hv] at hshift
    exact toNat_ite htu hshift hv

theorem SameScrambler.clocks {s : Scrambler} {p : PyScrambler} (h : SameScrambler s p) (k : Nat) :
    SameScrambler (scramblerMachine.clock^[k] s) (pyMachine.clock^[k] p) := by
  induction k generalizing s p with
  | zero => exact h
  | succ k ih => exact ih h.clock

/-- Related variables give the same key byte. -/
theorem SameScrambler.keyByte {s : Scrambler} {p : PyScrambler} (h : SameScrambler s p) :
    (scramblerMachine.keyByte s).1 = (pyMachine.keyByte p).1 ∧
      SameScrambler (scramblerMachine.keyByte s).2 (pyMachine.keyByte p).2 := by
  have h8 := h.clocks 8
  constructor
  · have hbyte : UInt8.ofNat (scramblerMachine.clock^[8] s).acc.toNat =
        (scramblerMachine.clock^[8] s).acc := UInt8.ofNat_toNat
    rw [h8.acc] at hbyte
    exact hbyte.symm
  · exact ⟨h8.acc, rfl, h8.t, h8.u, h8.v, h8.x⟩

theorem pyMachine_nacc (p : PyScrambler) (k : Nat) (h : p.nacc + k < 256) :
    (pyMachine.clock^[k] p).nacc = p.nacc + k := by
  induction k generalizing p with
  | zero => rfl
  | succ k ih =>
      have hclock : (pyMachine.clock p).nacc = p.nacc + 1 :=
        Nat.mod_eq_of_lt (by omega)
      rw [Function.iterate_succ_apply, ih _ (by omega), hclock]
      omega

theorem pyMachine_bytewise : pyMachine.Bytewise fun p => p.nacc = 0 where
  filling := fun p hp k hk => by
    have hnacc := pyMachine_nacc p (k + 1) (by omega)
    show ((pyMachine.clock^[k + 1] p).nacc == 8) = false
    rw [hnacc, hp]
    exact beq_eq_false_iff_ne.2 (by omega)
  full := fun p hp => by
    have hnacc := pyMachine_nacc p 8 (by omega)
    show ((pyMachine.clock^[8] p).nacc == 8) = true
    rw [hnacc, hp]
    rfl
  reset := fun _ _ => rfl

/-- The key bytes of the ROM. -/
def romCrypt (data : List UInt8) : List UInt8 :=
  crypt scramblerMachine.keyByte Scrambler.start data

theorem romCrypt_romCrypt (data : List UInt8) : romCrypt (romCrypt data) = data :=
  crypt_crypt _ data

@[simp]
theorem romCrypt_length (data : List UInt8) : (romCrypt data).length = data.length :=
  crypt_length _ data

theorem descrambler_eq {data : List UInt8} {size : Nat} (h : size ≤ data.length) :
    descrambler data size = some (romCrypt (data.take size) ++ data.drop size) :=
  scramblerMachine.run_eq scramblerMachine_bytewise rfl h

theorem scramble_eq (data : List UInt8) : scramble data = some (romCrypt data) := by
  have hrun := pyMachine.run_eq (s := PyScrambler.start) pyMachine_bytewise rfl
    (Nat.le_refl data.length)
  have hsame : crypt scramblerMachine.keyByte Scrambler.start data =
      crypt pyMachine.keyByte PyScrambler.start data :=
    crypt_congr SameScrambler (fun _ _ h => h.keyByte) .start data
  simpa [scramble, romCrypt, hsame] using hrun

end Boot
end Cubiboot
