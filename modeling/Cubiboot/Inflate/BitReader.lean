import Cubiboot.Foundations.BitStream
import Cubiboot.Inflate.Tinflate

/-!
# The bit reader

`bits` is what the decompressor has before it: the bits left in `tag`, then those of the
bytes from `source` on.  What is read of it is its beginning, and zeros once it ends, which
sets `overflow` (`Reads`).

Results: `tinfGetbits_spec` and `tinfGetbitsBase_spec`, what a read takes, whatever is
left; `tinfGetbits_eq` and `tinfGetbitsBase_eq`, that bits which are there are read;
`Reads.took` and `Reads.of_prefix`, reads that do not pass the end; and `Reads.trans`,
reads in a row.
-/

namespace Cubiboot
namespace Inflate

open BitStream

/-- The bits that are left. -/
def TinfData.bits (d : TinfData) : List Bool :=
  toBits d.bitcount d.tag ++ bitsOf d.source

/-- `tag` has no bits but its `bitcount`, and the end has been passed only at the end. -/
structure Sound (d : TinfData) : Prop where
  tag : d.tag < 2 ^ d.bitcount
  overflow : d.overflow = true → d.source = []

/-- Between two reads less than a byte is left in `tag`. -/
structure Ready (d : TinfData) : Prop extends Sound d where
  bitcount : d.bitcount < 8

/-- The bits `c` have been read. -/
structure Reads (d : TinfData) (c : List Bool) (d' : TinfData) : Prop where
  ready : Ready d'
  dest : d'.dest = d.dest
  destLen : d'.destLen = d.destLen
  bits : (d.bits = c ++ d'.bits ∧ d'.overflow = d.overflow) ∨
    (d.bits <+: c ∧ d.bits.length < c.length ∧ d'.overflow = true)

section Reads

variable {d d' d'' : TinfData} {c c' : List Bool}

theorem Reads.refl (h : Ready d) : Reads d [] d :=
  ⟨h, rfl, rfl, .inl ⟨rfl, rfl⟩⟩

theorem Reads.trans (h : Reads d c d') (h' : Reads d' c' d'') : Reads d (c ++ c') d'' := by
  refine ⟨h'.ready, h'.dest.trans h.dest, h'.destLen.trans h.destLen, ?_⟩
  rcases h.bits with ⟨hb, ho⟩ | ⟨hp, hlt, ho⟩
  · rcases h'.bits with ⟨hb', ho'⟩ | ⟨hp', hlt', ho'⟩
    · exact .inl ⟨by rw [hb, hb', List.append_assoc], ho'.trans ho⟩
    · refine .inr ⟨?_, ?_, ho'⟩
      · rw [hb]
        exact (List.prefix_append_right_inj c).2 hp'
      · rw [hb, List.length_append, List.length_append]
        omega
  · refine .inr ⟨hp.trans (List.prefix_append c c'), ?_, ?_⟩
    · rw [List.length_append]
      omega
    · rcases h'.bits with ⟨_, ho'⟩ | ⟨_, _, ho'⟩
      · exact ho'.trans ho
      · exact ho'

/-- Where the end has not been passed, the bits are those of the stream. -/
theorem Reads.took (h : Reads d c d') (ho : d'.overflow = false) :
    d.bits = c ++ d'.bits ∧ d.overflow = false := by
  rcases h.bits with ⟨hb, ho'⟩ | ⟨_, _, ho'⟩
  · exact ⟨hb, ho'.symm.trans ho⟩
  · rw [ho] at ho'
    cases ho'

/-- Where the stream has the bits, they are read from it. -/
theorem Reads.of_prefix (h : Reads d c d') (hc : c <+: d.bits) :
    d.bits = c ++ d'.bits ∧ d'.overflow = d.overflow := by
  rcases h.bits with hb | ⟨_, hlt, _⟩
  · exact hb
  · exact absurd hc.length_le (Nat.not_le.2 hlt)

/-- What has been read and what the stream has agree. -/
theorem Reads.common (h : Reads d c d') {w : List Bool} (hw : w <+: d.bits) :
    ∃ bits, c <+: bits ∧ w <+: bits := by
  rcases h.bits with ⟨hb, _⟩ | ⟨hp, _, _⟩
  · exact ⟨d.bits, ⟨d'.bits, hb.symm⟩, hw⟩
  · exact ⟨c, List.prefix_rfl, hw.trans hp⟩

end Reads

theorem toBits_zero (n : Nat) : toBits n 0 = List.replicate n false := by
  induction n with
  | zero => rfl
  | succ n ih =>
      rw [toBits, Nat.zero_div, ih, List.replicate_succ]
      rfl

section Refill

variable {d : TinfData} {num : Nat}

theorem refillByte_cons {b : UInt8} {source : List UInt8} (h : Sound d)
    (hs : d.source = b :: source) :
    Sound (refillByte d) ∧ (refillByte d).bits = d.bits ∧ (refillByte d).overflow = d.overflow := by
  have htag : d.tag ||| b.toNat <<< d.bitcount = d.tag + b.toNat * 2 ^ d.bitcount := by
    rw [Nat.or_comm, ← Nat.shiftLeft_add_eq_or_of_lt h.tag, Nat.shiftLeft_eq, Nat.add_comm]
  have hlt : d.tag + b.toNat * 2 ^ d.bitcount < 2 ^ (d.bitcount + 8) := by
    have hb := b.toNat_lt
    have htag := h.tag
    calc d.tag + b.toNat * 2 ^ d.bitcount < 2 ^ d.bitcount + b.toNat * 2 ^ d.bitcount := by omega
      _ = (b.toNat + 1) * 2 ^ d.bitcount := by rw [Nat.succ_mul, Nat.add_comm]
      _ ≤ 2 ^ 8 * 2 ^ d.bitcount := Nat.mul_le_mul_right _ hb
      _ = 2 ^ (d.bitcount + 8) := by rw [← Nat.pow_add, Nat.add_comm]
  rw [refillByte, hs]
  refine ⟨⟨?_, fun ho => ?_⟩, ?_, rfl⟩
  · show d.tag ||| b.toNat <<< d.bitcount < 2 ^ (d.bitcount + 8)
    rwa [htag]
  · have hnil := h.overflow ho
    rw [hs] at hnil
    cases hnil
  · show toBits (d.bitcount + 8) (d.tag ||| b.toNat <<< d.bitcount) ++ bitsOf source = _
    rw [htag, toBits_join h.tag, List.append_assoc, TinfData.bits, hs, bitsOf_cons]

theorem refillByte_nil (h : Sound d) (hs : d.source = []) :
    Sound (refillByte d) ∧ (refillByte d).bits = d.bits ++ List.replicate 8 false ∧
      (refillByte d).overflow = true := by
  have heq : refillByte d = { d with overflow := true, bitcount := d.bitcount + 8 } := by
    rw [refillByte]
    split
    · rename_i hcons
      rw [hs] at hcons
      cases hcons
    · rfl
  rw [heq]
  refine ⟨⟨?_, fun _ => hs⟩, ?_, rfl⟩
  · exact h.tag.trans_le (Nat.pow_le_pow_right (by decide) (Nat.le_add_right _ _))
  · show toBits (d.bitcount + 8) d.tag ++ bitsOf d.source = _
    rw [toBits_add, Nat.div_eq_of_lt h.tag, toBits_zero, TinfData.bits, hs, bitsOf_nil,
      List.append_nil, List.append_nil]

theorem refillByte_bitcount (d : TinfData) : (refillByte d).bitcount = d.bitcount + 8 := by
  rw [refillByte]
  split <;> rfl

theorem refillByte_dest (d : TinfData) :
    (refillByte d).dest = d.dest ∧ (refillByte d).destLen = d.destLen := by
  rw [refillByte]
  split <;> exact ⟨rfl, rfl⟩

/-- `num` bits are in `tag`: those of the stream, and zeros once it has ended. -/
structure Refilled (num : Nat) (d d' : TinfData) : Prop where
  sound : Sound d'
  dest : d'.dest = d.dest
  destLen : d'.destLen = d.destLen
  enough : num ≤ d'.bitcount
  bitcount : d'.bitcount = d.bitcount ∨ d'.bitcount < num + 8
  bits : (d'.bits = d.bits ∧ d'.overflow = d.overflow) ∨
    d.bits.length < num ∧ (∃ n, d'.bits = d.bits ++ List.replicate n false) ∧ d'.overflow = true

theorem tinfRefill_spec {turns : Nat} (h : Sound d) (hturns : num ≤ d.bitcount + 8 * turns) :
    Refilled num d (tinfRefill num turns d) := by
  induction turns generalizing d with
  | zero => exact ⟨h, rfl, rfl, hturns, .inl rfl, .inl ⟨rfl, rfl⟩⟩
  | succ turns ih =>
      rw [tinfRefill]
      by_cases hlt : d.bitcount < num
      · rw [if_pos hlt]
        have hcount := refillByte_bitcount d
        obtain ⟨hdest, hlen⟩ := refillByte_dest d
        cases hs : d.source with
        | cons b source =>
            obtain ⟨hsound, hbits, hover⟩ := refillByte_cons h hs
            have hih := ih hsound (by omega)
            refine ⟨hih.sound, hih.dest.trans hdest, hih.destLen.trans hlen, hih.enough, ?_, ?_⟩
            · have := hih.bitcount
              omega
            · rw [← hbits, ← hover]
              exact hih.bits
        | nil =>
            obtain ⟨hsound, hbits, hover⟩ := refillByte_nil h hs
            have hih := ih hsound (by omega)
            refine ⟨hih.sound, hih.dest.trans hdest, hih.destLen.trans hlen, hih.enough, ?_,
              .inr ?_⟩
            · have := hih.bitcount
              omega
            · have hshort : d.bits.length < num := by
                rw [TinfData.bits, hs, bitsOf_nil, List.append_nil, toBits_length]
                exact hlt
              rcases hih.bits with ⟨hb, ho⟩ | ⟨_, ⟨n, hb⟩, ho⟩
              · exact ⟨hshort, ⟨8, hb.trans hbits⟩, ho.trans hover⟩
              · refine ⟨hshort, ⟨8 + n, ?_⟩, ho⟩
                rw [hb, hbits, List.append_assoc, List.replicate_append_replicate]
      · rw [if_neg hlt]
        exact ⟨h, rfl, rfl, Nat.not_lt.1 hlt, .inl rfl, .inl ⟨rfl, rfl⟩⟩

end Refill

section Getbits

variable {d : TinfData} {num : Nat}

/-- `num` bits are taken from `tag`. -/
theorem tinfGetbitsNoRefill_spec (h : Sound d) (hnum : num ≤ d.bitcount) :
    (tinfGetbitsNoRefill d num).1 < 2 ^ num ∧ Sound (tinfGetbitsNoRefill d num).2 ∧
      d.bits = toBits num (tinfGetbitsNoRefill d num).1 ++ (tinfGetbitsNoRefill d num).2.bits := by
  have hval : (tinfGetbitsNoRefill d num).1 = d.tag % 2 ^ num := by
    show d.tag &&& (1 <<< num - 1) = _
    rw [Nat.one_shiftLeft, Nat.and_two_pow_sub_one_eq_mod]
  have hpow : 2 ^ d.bitcount = 2 ^ num * 2 ^ (d.bitcount - num) := by
    rw [← Nat.pow_add, Nat.add_sub_cancel' hnum]
  rw [hval]
  refine ⟨Nat.mod_lt _ (Nat.two_pow_pos num), ⟨?_, h.overflow⟩, ?_⟩
  · show d.tag >>> num < 2 ^ (d.bitcount - num)
    rw [Nat.shiftRight_eq_div_pow, Nat.div_lt_iff_lt_mul (Nat.two_pow_pos num), Nat.mul_comm,
      ← hpow]
    exact h.tag
  · show toBits d.bitcount d.tag ++ bitsOf d.source =
      toBits num (d.tag % 2 ^ num) ++
        (toBits (d.bitcount - num) (d.tag >>> num) ++ bitsOf d.source)
    rw [← List.append_assoc, toBits_mod, Nat.shiftRight_eq_div_pow, ← toBits_add,
      Nat.add_sub_cancel' hnum]

/-- `tinf_getbits` reads `num` bits. -/
theorem tinfGetbits_spec (h : Ready d) (num : Nat) :
    (tinfGetbits d num).1 < 2 ^ num ∧
      Reads d (toBits num (tinfGetbits d num).1) (tinfGetbits d num).2 := by
  have hre : Refilled num d (tinfRefill num num d) := tinfRefill_spec h.toSound (by omega)
  obtain ⟨hlt, hsound, hbits⟩ := tinfGetbitsNoRefill_spec hre.sound hre.enough
  refine ⟨hlt, ⟨hsound, ?_⟩, hre.dest, hre.destLen, ?_⟩
  · show (tinfRefill num num d).bitcount - num < 8
    have hcount := h.bitcount
    have henough := hre.enough
    rcases hre.bitcount with heq | hlt <;> omega
  · rcases hre.bits with ⟨hb, ho⟩ | ⟨hshort, ⟨n, hb⟩, ho⟩
    · exact .inl ⟨hb ▸ hbits, ho⟩
    · refine .inr ⟨?_, by rw [toBits_length]; exact hshort, ho⟩
      rw [hb] at hbits
      refine List.prefix_of_prefix_length_le ⟨List.replicate n false, rfl⟩
        ⟨(tinfGetbits d num).2.bits, hbits.symm⟩ ?_
      rw [toBits_length]
      exact hshort.le

/-- Bits that the stream has are read from it. -/
theorem tinfGetbits_eq {v : Nat} {rest : List Bool} (h : Ready d)
    (hbits : d.bits = toBits num v ++ rest) (hv : v < 2 ^ num) :
    (tinfGetbits d num).1 = v ∧ (tinfGetbits d num).2.bits = rest ∧
      (tinfGetbits d num).2.overflow = d.overflow := by
  obtain ⟨hlt, hreads⟩ := tinfGetbits_spec h num
  rcases hreads.bits with ⟨hb, ho⟩ | ⟨_, hshort, _⟩
  · rw [hbits] at hb
    obtain ⟨hhead, htail⟩ := List.append_inj hb (by simp)
    exact ⟨(toBits_inj hv hlt hhead).symm, htail.symm, ho⟩
  · rw [hbits, List.length_append, toBits_length, toBits_length] at hshort
    omega

/-- `tinf_getbits_base`. -/
theorem tinfGetbitsBase_spec (h : Ready d) (num base : Nat) :
    ∃ v, v < 2 ^ num ∧ (tinfGetbitsBase d num base).1 = base + v ∧
      Reads d (toBits num v) (tinfGetbitsBase d num base).2 := by
  rw [tinfGetbitsBase]
  by_cases hnum : num = 0
  · subst hnum
    exact ⟨0, by decide, rfl, .refl h⟩
  · rw [if_neg hnum]
    obtain ⟨hlt, hreads⟩ := tinfGetbits_spec h num
    exact ⟨_, hlt, rfl, hreads⟩

theorem tinfGetbitsBase_eq {v : Nat} (base : Nat) {rest : List Bool} (h : Ready d)
    (hbits : d.bits = toBits num v ++ rest) (hv : v < 2 ^ num) :
    (tinfGetbitsBase d num base).1 = base + v ∧ (tinfGetbitsBase d num base).2.bits = rest ∧
      (tinfGetbitsBase d num base).2.overflow = d.overflow := by
  rw [tinfGetbitsBase]
  by_cases hnum : num = 0
  · subst hnum
    have hv : v = 0 := by
      rw [Nat.pow_zero] at hv
      omega
    exact ⟨by rw [hv]; rfl, hbits, rfl⟩
  · rw [if_neg hnum]
    obtain ⟨hval, hrest, ho⟩ := tinfGetbits_eq h hbits hv
    exact ⟨by rw [hval], hrest, ho⟩

end Getbits

end Inflate
end Cubiboot
