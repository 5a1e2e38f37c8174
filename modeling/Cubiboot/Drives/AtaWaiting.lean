import Cubiboot.Drives.Ata
import Cubiboot.Drives.Polls

/-!
# Reads that wait for a drive behind IDE-EXI

What `ata_read` does when a drive answers anything at all.  The polls of the status and
those of the transfer of a sector are counted by the driver, and a sector is tried a
number of times, with a reset in between.  In native mode the start bit of each transfer
is polled as well, and for that there is no count: a function whose fuel has run out is
still waiting for one.

`Spent` is what the functions of the driver spend on a drive: accesses, and for each of
them the polls of two start bits at most.  Every function has a lemma for what it spends
and one that says that it returns where the start bits are found clear in time.

Results: `ataAttempts_spent` and `ataAttempts_total`, the attempts at one sector;
`ataAttempts_first`, that a read which ends has found its first start bit clear;
`ataReadsEnd_iff`, that reads end, within transactions that depend on their count, exactly
when every start bit is found clear by some number of polls.
-/

namespace Cubiboot
namespace Drives

open Words

/-- What a drive answers, and the bits of its transfers. -/
structure AtaDevice where
  native : Bool
  readSelect : Nat → Bool
  writeSelect : Nat → Bool
  status : Nat → UInt8
  /-- Whether the bit of a sector is found set, by access and poll. -/
  busy : Nat → Nat → Bool
  data : Nat → Bytes
  signature : TaskFile
  /-- Whether the start bit is found set, by transfer of the native mode and poll. -/
  startBit : Nat → Nat → Bool

/-- What happens when the bits are polled. -/
def AtaDevice.events (d : AtaDevice) : AtaEvents where
  native := d.native
  readSelect := d.readSelect
  writeSelect := d.writeSelect
  status := d.status
  completes := fun n => polledClear (d.busy n)
  noise := d.data
  signature := d.signature
  startBit := d.startBit

/-- The transactions of `ata_read`. -/
def ataReadTransactions
    (d : AtaDevice) (medium : Bytes) (fuel : Nat) (lba48 : Bool) (sector count : Nat)
    (s : AtaState) (data : Bytes) : Option Nat :=
  (ataReadLoop d.events medium fuel lba48 sector count s data).map fun r =>
    transactions (fun n => pollCount (d.busy n)) s.accesses (r.2.2.accesses - s.accesses) +
      (r.2.2.polls - s.polls)

/-- Every read ends after a number of transactions that depends on its count. -/
def AtaReadsEnd (d : AtaDevice) : Prop :=
  ∃ bound : Nat → Nat, ∀ medium lba48 sector count s data,
    ∃ fuel r n, ataRead d.events medium fuel lba48 sector count s data = some r ∧
      ataReadTransactions d medium fuel lba48 sector count s data = some n ∧ n ≤ bound count

/-- Every start bit is found clear in time, if there is one to wait for. -/
def AtaEvents.StartBitsClear (e : AtaEvents) (k : Nat) : Prop :=
  e.native = true → ∀ n, ClearsWithin (e.startBit n) k

/-- The accesses of an attempt, with the reset before it. -/
abbrev ataAttemptAccesses : Nat := 300014

/-- What has been spent on some accesses, of at most two transfers each. -/
structure Spent (fuel accesses : Nat) (s s' : AtaState) : Prop where
  least : s.accesses ≤ s'.accesses
  most : s'.accesses ≤ s.accesses + accesses
  leastPolls : s.polls ≤ s'.polls
  mostPolls : s'.polls ≤ s.polls + accesses * (2 * fuel)

/-- The first start bit that was waited for has been found clear. -/
def FirstClears (e : AtaEvents) (s s' : AtaState) : Prop :=
  e.native = true → ClearsWithin (e.startBit s.imms) (s'.polls - s.polls)

section Ata

variable {e : AtaEvents} {medium : Bytes} {lba48 : Bool} {lba fuel n m : Nat}
variable {s s' s'' : AtaState}

theorem Spent.refl (s : AtaState) : Spent fuel 0 s s :=
  ⟨Nat.le_refl _, Nat.le_refl _, Nat.le_refl _, Nat.le_add_right _ _⟩

theorem Spent.trans (h : Spent fuel n s s') (h' : Spent fuel m s' s'') :
    Spent fuel (n + m) s s'' := by
  obtain ⟨hleast, hmost, hleastPolls, hmostPolls⟩ := h
  obtain ⟨hleast', hmost', hleastPolls', hmostPolls'⟩ := h'
  have hsum : (n + m) * (2 * fuel) = n * (2 * fuel) + m * (2 * fuel) := Nat.add_mul _ _ _
  exact ⟨by omega, by omega, by omega, by omega⟩

theorem Spent.mono (h : Spent fuel n s s') (hle : n ≤ m) : Spent fuel m s s' := by
  obtain ⟨hleast, hmost, hleastPolls, hmostPolls⟩ := h
  have hpolls : n * (2 * fuel) ≤ m * (2 * fuel) := Nat.mul_le_mul_right _ hle
  exact ⟨hleast, by omega, hleastPolls, by omega⟩

theorem FirstClears.later (h : FirstClears e s s') (hle : s'.polls ≤ s''.polls) :
    FirstClears e s s'' :=
  fun hnative => (h hnative).mono (by omega)

theorem ataImm_spent (h : ataImm e fuel s = some s') :
    s'.accesses = s.accesses ∧ s.polls ≤ s'.polls ∧ s'.polls ≤ s.polls + fuel ∧
      FirstClears e s s' := by
  rw [ataImm] at h
  split at h
  · obtain ⟨polls, hpolls, rfl⟩ := Option.map_eq_some_iff.1 h
    have hmost := awaitStartBit_le hpolls
    refine ⟨rfl, Nat.le_add_right _ _, Nat.add_le_add_left hmost _, fun _ => ?_⟩
    rw [Nat.add_sub_cancel_left]
    exact clearsWithin_of_await hpolls
  · rename_i hother
    cases h
    exact ⟨rfl, Nat.le_refl _, Nat.le_add_right _ _, fun hnative => absurd hnative hother⟩

theorem ataImm_total (h : e.StartBitsClear fuel) (s : AtaState) :
    ∃ s', ataImm e fuel s = some s' := by
  rw [ataImm]
  split
  · rename_i hnative
    obtain ⟨polls, hpolls⟩ := (h hnative s.imms).awaitStartBit
    rw [hpolls]
    exact ⟨_, rfl⟩
  · exact ⟨s, rfl⟩

theorem ataRd8_spent {st : UInt8} (h : ataRd8 e fuel s = some (st, s')) :
    Spent fuel 1 s s' ∧ FirstClears e s s' := by
  simp only [ataRd8] at h
  split at h
  · simp only [Option.bind_eq_bind, Option.bind_eq_some_iff, Option.some.injEq,
      Prod.mk.injEq] at h
    obtain ⟨s₁, hfirst, s₂, hsecond, _, rfl⟩ := h
    obtain ⟨haccesses, hleast, hmost, hclears⟩ := ataImm_spent hfirst
    obtain ⟨haccesses', hleast', hmost', _⟩ := ataImm_spent hsecond
    simp only at haccesses hleast hmost
    exact ⟨⟨by omega, by omega, by omega, by omega⟩, FirstClears.later hclears hleast'⟩
  · rename_i hselect
    cases h
    refine ⟨⟨Nat.le_succ _, Nat.le_refl _, Nat.le_refl _, Nat.le_add_right _ _⟩, ?_⟩
    intro hnative
    rw [ataSelect, hnative, Bool.true_or] at hselect
    exact absurd rfl hselect

theorem ataRd8_total (h : e.StartBitsClear fuel) (s : AtaState) :
    ∃ st s', ataRd8 e fuel s = some (st, s') := by
  simp only [ataRd8]
  split
  · obtain ⟨s₁, hfirst⟩ := ataImm_total h { s with accesses := s.accesses + 1 }
    obtain ⟨s₂, hsecond⟩ := ataImm_total h s₁
    rw [hfirst, Option.bind_eq_bind, Option.bind_some, hsecond]
    exact ⟨_, _, rfl⟩
  · exact ⟨_, _, rfl⟩

theorem write_counted (s : AtaState) (reg : AtaReg) (val : Nat) :
    (AtaState.write e s reg val).accesses = s.accesses ∧
      (AtaState.write e s reg val).polls = s.polls := by
  cases reg with
  | devctrl =>
      simp only [AtaState.write]
      split
      · exact ⟨rfl, rfl⟩
      · exact ⟨rfl, rfl⟩
  | _ => exact ⟨rfl, rfl⟩

theorem ataWr8_spent {reg : AtaReg} {val : Nat} (h : ataWr8 e fuel s reg val = some s') :
    Spent fuel 1 s s' := by
  simp only [ataWr8] at h
  split at h
  · obtain ⟨s₁, himm, rfl⟩ := Option.map_eq_some_iff.1 h
    obtain ⟨haccesses, hleast, hmost, _⟩ := ataImm_spent himm
    obtain ⟨hkept, hkeptPolls⟩ := write_counted (e := e) s₁ reg val
    simp only at haccesses hleast hmost
    exact ⟨by omega, by omega, by omega, by omega⟩
  · cases h
    exact ⟨Nat.le_succ _, Nat.le_refl _, Nat.le_refl _, Nat.le_add_right _ _⟩

theorem ataWr8_total (h : e.StartBitsClear fuel) (s : AtaState) (reg : AtaReg) (val : Nat) :
    ∃ s', ataWr8 e fuel s reg val = some s' := by
  simp only [ataWr8]
  split
  · obtain ⟨s₁, himm⟩ := ataImm_total h { s with accesses := s.accesses + 1 }
    rw [himm]
    exact ⟨_, rfl⟩
  · exact ⟨_, rfl⟩

theorem ataWaitLoop_spent
    {mask want : UInt8} {left : Nat} {ok : Bool}
    (h : ataWaitLoop e fuel mask want left s = some (ok, s')) : Spent fuel left s s' := by
  induction left generalizing s with
  | zero =>
      cases h
      exact Spent.refl _
  | succ left ih =>
      simp only [ataWaitLoop, Option.bind_eq_bind, Option.bind_eq_some_iff] at h
      obtain ⟨⟨st, s₁⟩, hst, hrest⟩ := h
      have hread := (ataRd8_spent hst).1
      split at hrest
      · cases hrest
        exact hread.mono (by omega)
      · split at hrest
        · cases hrest
          exact hread.mono (by omega)
        · exact (hread.trans (ih hrest)).mono (by omega)

theorem ataWaitLoop_first
    {mask want : UInt8} {n : Nat} {ok : Bool}
    (h : ataWaitLoop e fuel mask want (n + 1) s = some (ok, s')) : FirstClears e s s' := by
  simp only [ataWaitLoop, Option.bind_eq_bind, Option.bind_eq_some_iff] at h
  obtain ⟨⟨st, s₁⟩, hst, hrest⟩ := h
  have hread := (ataRd8_spent hst).2
  split at hrest
  · cases hrest
    exact hread
  · split at hrest
    · cases hrest
      exact hread
    · exact hread.later (ataWaitLoop_spent hrest).leastPolls

theorem ataWaitLoop_total
    (h : e.StartBitsClear fuel) (mask want : UInt8) (left : Nat) (s : AtaState) :
    ∃ ok s', ataWaitLoop e fuel mask want left s = some (ok, s') := by
  induction left generalizing s with
  | zero =>
      exact ⟨false, s, rfl⟩
  | succ left ih =>
      obtain ⟨st, s₁, hst⟩ := ataRd8_total h s
      simp only [ataWaitLoop, hst, Option.bind_eq_bind, Option.bind_some]
      split
      · exact ⟨_, _, rfl⟩
      · split
        · exact ⟨_, _, rfl⟩
        · exact ih s₁

theorem ataSoftReset_spent (h : ataSoftReset e fuel s = some s') : Spent fuel 100002 s s' := by
  simp only [ataSoftReset, Option.bind_eq_bind, Option.bind_eq_some_iff,
    Option.some.injEq] at h
  obtain ⟨s₁, hset, s₂, hclear, ⟨ok, s₃⟩, hwait, rfl⟩ := h
  exact ((ataWr8_spent hset).trans (ataWr8_spent hclear)).trans (ataWaitLoop_spent hwait)

theorem ataSoftReset_total (h : e.StartBitsClear fuel) (s : AtaState) :
    ∃ s', ataSoftReset e fuel s = some s' := by
  obtain ⟨s₁, hset⟩ := ataWr8_total h s .devctrl (ataDcrSrst ||| ataDcrNien)
  obtain ⟨s₂, hclear⟩ := ataWr8_total h s₁ .devctrl ataDcrNien
  obtain ⟨ok, s₃, hwait⟩ := ataWaitLoop_total h ataSrBsy 0 100000 s₂
  refine ⟨s₃, ?_⟩
  simp only [ataSoftReset, hset, hclear, ataWait, hwait, Option.bind_eq_bind,
    Option.bind_some]

theorem ataBeforeAttempt_spent {t : Nat} (h : ataBeforeAttempt e fuel t s = some s') :
    Spent fuel 100002 s s' := by
  rw [ataBeforeAttempt] at h
  split at h
  · exact ataSoftReset_spent h
  · cases h
    exact (Spent.refl _).mono (Nat.zero_le _)

theorem ataBeforeAttempt_total (h : e.StartBitsClear fuel) (t : Nat) (s : AtaState) :
    ∃ s', ataBeforeAttempt e fuel t s = some s' := by
  rw [ataBeforeAttempt]
  split
  · exact ataSoftReset_total h s
  · exact ⟨s, rfl⟩

theorem ataGiveCommand_spent (h : ataGiveCommand e fuel lba48 lba s = some s') :
    Spent fuel 10 s s' := by
  cases lba48 with
  | true =>
      simp only [ataGiveCommand, if_true, Option.bind_eq_bind, Option.bind_eq_some_iff] at h
      obtain ⟨s₁, h₁, s₂, h₂, s₃, h₃, s₄, h₄, s₅, h₅, s₆, h₆, s₇, h₇, s₈, h₈, s₉, h₉, h₁₀⟩ := h
      have hhigh := (((ataWr8_spent h₁).trans (ataWr8_spent h₂)).trans
        (ataWr8_spent h₃)).trans ((ataWr8_spent h₄).trans (ataWr8_spent h₅))
      have hlow := (((ataWr8_spent h₆).trans (ataWr8_spent h₇)).trans
        (ataWr8_spent h₈)).trans ((ataWr8_spent h₉).trans (ataWr8_spent h₁₀))
      exact hhigh.trans hlow
  | false =>
      simp only [ataGiveCommand, Bool.false_eq_true, if_false, Option.bind_eq_bind,
        Option.bind_eq_some_iff] at h
      obtain ⟨s₁, h₁, s₂, h₂, s₃, h₃, s₄, h₄, s₅, h₅, h₆⟩ := h
      have hall := (((ataWr8_spent h₁).trans (ataWr8_spent h₂)).trans
        (ataWr8_spent h₃)).trans (((ataWr8_spent h₄).trans (ataWr8_spent h₅)).trans
          (ataWr8_spent h₆))
      exact hall.mono (by omega)

theorem ataGiveCommand_total
    (h : e.StartBitsClear fuel) (lba48 : Bool) (lba : Nat) (s : AtaState) :
    ∃ s', ataGiveCommand e fuel lba48 lba s = some s' := by
  have hwrite := fun s reg val => ataWr8_total h s reg val
  cases lba48 with
  | true =>
      obtain ⟨s₁, h₁⟩ := hwrite s .device ataHeadUseLba
      obtain ⟨s₂, h₂⟩ := hwrite s₁ .seccount 0
      obtain ⟨s₃, h₃⟩ := hwrite s₂ .lbalo (lba / 0x1000000 % 0x100)
      obtain ⟨s₄, h₄⟩ := hwrite s₃ .lbamid 0
      obtain ⟨s₅, h₅⟩ := hwrite s₄ .lbahi 0
      obtain ⟨s₆, h₆⟩ := hwrite s₅ .seccount 1
      obtain ⟨s₇, h₇⟩ := hwrite s₆ .lbalo (lba % 0x100)
      obtain ⟨s₈, h₈⟩ := hwrite s₇ .lbamid (lba / 0x100 % 0x100)
      obtain ⟨s₉, h₉⟩ := hwrite s₈ .lbahi (lba / 0x10000 % 0x100)
      obtain ⟨s₁₀, h₁₀⟩ := hwrite s₉ .command ataCmdReadsectext
      refine ⟨s₁₀, ?_⟩
      simp only [ataGiveCommand, if_true, Option.bind_eq_bind, Option.bind_some, h₁, h₂, h₃,
        h₄, h₅, h₆, h₇, h₈, h₉, h₁₀]
  | false =>
      obtain ⟨s₁, h₁⟩ := hwrite s .device (ataHeadUseLba ||| lba / 0x1000000 % 0x10)
      obtain ⟨s₂, h₂⟩ := hwrite s₁ .seccount 1
      obtain ⟨s₃, h₃⟩ := hwrite s₂ .lbalo (lba % 0x100)
      obtain ⟨s₄, h₄⟩ := hwrite s₃ .lbamid (lba / 0x100 % 0x100)
      obtain ⟨s₅, h₅⟩ := hwrite s₄ .lbahi (lba / 0x10000 % 0x100)
      obtain ⟨s₆, h₆⟩ := hwrite s₅ .command ataCmdReadsect
      refine ⟨s₆, ?_⟩
      simp only [ataGiveCommand, Bool.false_eq_true, if_false, Option.bind_eq_bind,
        Option.bind_some, h₁, h₂, h₃, h₄, h₅, h₆]

theorem ataRdBuffer_spent {got : Option Bytes}
    (h : ataRdBuffer e medium fuel s = some (got, s')) : Spent fuel 1 s s' := by
  simp only [ataRdBuffer] at h
  split at h
  · obtain ⟨s₁, himm, hr⟩ := Option.map_eq_some_iff.1 h
    obtain ⟨haccesses, hleast, hmost, _⟩ := ataImm_spent himm
    cases hr
    simp only at haccesses hleast hmost
    exact ⟨by omega, by omega, by omega, by omega⟩
  · cases h
    exact ⟨Nat.le_succ _, Nat.le_refl _, Nat.le_refl _, Nat.le_add_right _ _⟩

theorem ataRdBuffer_total (h : e.StartBitsClear fuel) (medium : Bytes) (s : AtaState) :
    ∃ got s', ataRdBuffer e medium fuel s = some (got, s') := by
  simp only [ataRdBuffer]
  split
  · obtain ⟨s₁, himm⟩ := ataImm_total h { s with accesses := s.accesses + 1 }
    rw [himm]
    exact ⟨_, _, rfl⟩
  · exact ⟨_, _, rfl⟩

theorem ataReadOne_spent {got : Option Bytes}
    (h : ataReadOne e medium fuel lba48 lba s = some (got, s')) :
    Spent fuel 200012 s s' ∧ FirstClears e s s' := by
  simp only [ataReadOne, Option.bind_eq_bind, Option.bind_eq_some_iff] at h
  obtain ⟨⟨idle, s₁⟩, hidle, h⟩ := h
  have hready := ataWaitLoop_spent hidle
  have hfirst : FirstClears e s s₁ := ataWaitLoop_first (n := 99999) hidle
  split at h
  · simp only [Option.bind_eq_some_iff] at h
    obtain ⟨s₂, hgive, ⟨data, s₃⟩, hdata, h⟩ := h
    have hgiven := (ataGiveCommand_spent hgive).trans (ataWaitLoop_spent hdata)
    split at h
    · simp only [Option.bind_eq_some_iff] at h
      obtain ⟨⟨st, s₄⟩, hst, h⟩ := h
      have hstatus := hgiven.trans (ataRd8_spent hst).1
      split at h
      · cases h
        have hall := hready.trans hstatus
        exact ⟨hall.mono (by omega), hfirst.later hstatus.leastPolls⟩
      · have hbuffer := hstatus.trans (ataRdBuffer_spent h)
        exact ⟨hready.trans hbuffer, hfirst.later hbuffer.leastPolls⟩
    · cases h
      have hall := hready.trans hgiven
      exact ⟨hall.mono (by omega), hfirst.later hgiven.leastPolls⟩
  · cases h
    exact ⟨hready.mono (by omega), hfirst⟩

theorem ataReadOne_total
    (h : e.StartBitsClear fuel) (medium : Bytes) (lba48 : Bool) (lba : Nat) (s : AtaState) :
    ∃ got s', ataReadOne e medium fuel lba48 lba s = some (got, s') := by
  obtain ⟨idle, s₁, hidle⟩ := ataWaitLoop_total h ataSrBsy 0 100000 s
  obtain ⟨s₂, hgive⟩ := ataGiveCommand_total h lba48 lba s₁
  obtain ⟨data, s₃, hdata⟩ :=
    ataWaitLoop_total h (ataSrBsy ||| ataSrDrq) ataSrDrq 100000 s₂
  obtain ⟨st, s₄, hst⟩ := ataRd8_total h s₃
  simp only [ataReadOne, ataWait, hidle, Option.bind_eq_bind, Option.bind_some]
  split
  · simp only [hgive, Option.bind_some, hdata]
    split
    · simp only [hst, Option.bind_some]
      split
      · exact ⟨_, _, rfl⟩
      · exact ataRdBuffer_total h medium s₄
    · exact ⟨_, _, rfl⟩
  · exact ⟨_, _, rfl⟩

theorem ataAttempts_spent {left t : Nat} {got : Option Bytes}
    (h : ataAttempts e medium fuel lba48 lba left t s = some (got, s')) :
    Spent fuel (left * ataAttemptAccesses) s s' := by
  induction left generalizing t s with
  | zero =>
      cases h
      exact (Spent.refl _).mono (Nat.zero_le _)
  | succ left ih =>
      simp only [ataAttempts, Option.bind_eq_bind, Option.bind_eq_some_iff] at h
      obtain ⟨s₁, hbefore, ⟨got', s₂⟩, hone, h⟩ := h
      have hattempt := (ataBeforeAttempt_spent hbefore).trans (ataReadOne_spent hone).1
      have hsize : (left + 1) * ataAttemptAccesses =
          100002 + 200012 + left * ataAttemptAccesses := by
        simp only [ataAttemptAccesses]
        omega
      rw [hsize]
      cases got' with
      | some block =>
          cases h
          exact hattempt.mono (Nat.le_add_right _ _)
      | none => exact hattempt.trans (ih h)

theorem ataAttempts_first {n : Nat} {got : Option Bytes}
    (h : ataAttempts e medium fuel lba48 lba (n + 1) 0 s = some (got, s')) :
    FirstClears e s s' := by
  simp only [ataAttempts, Option.bind_eq_bind, Option.bind_eq_some_iff] at h
  obtain ⟨s₁, hbefore, ⟨got', s₂⟩, hone, h⟩ := h
  have hsame : s₁ = s := (Option.some.inj hbefore).symm
  rw [hsame] at hone
  have hfirst := (ataReadOne_spent hone).2
  cases got' with
  | some block =>
      cases h
      exact hfirst
  | none => exact hfirst.later (ataAttempts_spent h).leastPolls

theorem ataAttempts_total
    (h : e.StartBitsClear fuel) (medium : Bytes) (lba48 : Bool) (lba left t : Nat)
    (s : AtaState) :
    ∃ got s', ataAttempts e medium fuel lba48 lba left t s = some (got, s') := by
  induction left generalizing t s with
  | zero =>
      exact ⟨none, s, rfl⟩
  | succ left ih =>
      obtain ⟨s₁, hbefore⟩ := ataBeforeAttempt_total h t s
      obtain ⟨got, s₂, hone⟩ := ataReadOne_total h medium lba48 lba s₁
      simp only [ataAttempts, hbefore, hone, Option.bind_eq_bind, Option.bind_some]
      cases got with
      | some block => exact ⟨_, _, rfl⟩
      | none => exact ih (t + 1) s₂

/-- Start bits that are found clear in time leave the bounds of the driver itself. -/
theorem ataReadsEnd_of_clear {d : AtaDevice} {k : Nat} (h : d.events.StartBitsClear k) :
    AtaReadsEnd d := by
  refine ⟨fun count => count * (ataReadRetries * ataAttemptAccesses) * (1 + transferPolls) +
      count * (ataReadRetries * ataAttemptAccesses) * (2 * k),
    fun medium lba48 sector count s data => ?_⟩
  have hone : ∀ i (s : AtaState), ∃ block s',
      ataAttempts d.events medium k lba48 (word (sector + i)) ataReadRetries 0 s =
        some (block, s') ∧ Spent k (ataReadRetries * ataAttemptAccesses) s s' := by
    intro i s
    obtain ⟨block, s', hattempts⟩ :=
      ataAttempts_total h medium lba48 (word (sector + i)) ataReadRetries 0 s
    exact ⟨block, s', hattempts, ataAttempts_spent hattempts⟩
  obtain ⟨ok, out, s', hloop, hspent⟩ :=
    eachBlock_within (Spent k) Spent.refl Spent.trans Spent.mono hone count 0 s data
  have haccesses := hspent.most
  have hpolls := hspent.mostPolls
  refine ⟨k, (ok, out), transactions (fun n => pollCount (d.busy n)) s.accesses
    (s'.accesses - s.accesses) + (s'.polls - s.polls), ?_, ?_, Nat.add_le_add ?_ ?_⟩
  · rw [ataRead, ataReadLoop, hloop]
    rfl
  · rw [ataReadTransactions, ataReadLoop, hloop]
    rfl
  · have hbits := transactions_le (fun n => pollCount_le (d.busy n)) s.accesses
      (s'.accesses - s.accesses)
    exact hbits.trans (Nat.mul_le_mul_right _ (by omega))
  · exact Nat.sub_le_iff_le_add'.2 hpolls

/-- A read that ends has found its first start bit clear. -/
theorem clear_of_ataReadsEnd {d : AtaDevice} (h : AtaReadsEnd d) :
    ∃ k, d.events.StartBitsClear k := by
  obtain ⟨bound, hends⟩ := h
  refine ⟨bound 1, fun hnative n => ?_⟩
  obtain ⟨fuel, r, spent, hread, hspent, hle⟩ :=
    hends (fun _ => 0) true 0 1 ⟨0, d.signature, none, n, 0⟩ fun _ => 0
  obtain ⟨⟨ok, out, s'⟩, hloop, rfl⟩ := Option.map_eq_some_iff.1 hspent
  obtain ⟨got, hattempts⟩ := eachBlock_single hloop
  have hfirst := ataAttempts_first (n := 3) hattempts hnative
  simp only [Nat.sub_zero] at hfirst hle
  exact hfirst.mono (by omega)

/--
Reads of a drive behind IDE-EXI end, whatever it answers, if the start bits of the native
mode do.
-/
theorem ataReadsEnd_iff (d : AtaDevice) :
    AtaReadsEnd d ↔ ∃ k, d.events.StartBitsClear k :=
  ⟨clear_of_ataReadsEnd, fun ⟨_, h⟩ => ataReadsEnd_of_clear h⟩

end Ata

end Drives
end Cubiboot
