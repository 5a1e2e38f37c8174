import Cubiboot.Drives.StartBit

/-!
# Drives behind IDE-EXI

`ata.c` as it is built for the IPL.  The drive has the task file: the registers
of a 48-bit command are two deep, so that a second write to one keeps the first.

`ata_wr8` has no result.  A write for which the channel cannot be selected does
not reach the drive, and nothing notices.

In native mode the channel is always selected, and each transfer of `ata_imm` waits for
its start bit.  Outside of it the transfers are those of the IPL.  A function that
returns `none` is still waiting for a start bit when its fuel has run out.

Results: `ataRead_blocks`, that a sector which is read is the one of the command;
`ata_neverAnother_iff`, which sectors can be asked for so that no other is delivered.
-/

namespace Cubiboot
namespace Drives

open Words

/-- The registers that the driver writes. -/
inductive AtaReg where
  | seccount
  | lbalo
  | lbamid
  | lbahi
  | device
  | command
  | devctrl
deriving DecidableEq

/-- `ATA_CMD_READSECT`. -/
abbrev ataCmdReadsect : Nat := 0x21

/-- `ATA_CMD_READSECTEXT`. -/
abbrev ataCmdReadsectext : Nat := 0x24

/-- `ATA_HEAD_USE_LBA`. -/
abbrev ataHeadUseLba : Nat := 0x40

/-- `ATA_DCR_SRST`. -/
abbrev ataDcrSrst : Nat := 0x04

/-- `ATA_DCR_NIEN`. -/
abbrev ataDcrNien : Nat := 0x02

/-- `ATA_SR_BSY`. -/
abbrev ataSrBsy : UInt8 := 0x80

/-- `ATA_SR_DRQ`. -/
abbrev ataSrDrq : UInt8 := 0x08

/-- `ATA_SR_ERR`. -/
abbrev ataSrErr : UInt8 := 0x01

/-- `ATA_READ_RETRIES`. -/
abbrev ataReadRetries : Nat := 4

/-- A register that keeps what was written before. -/
structure Fifo where
  current : Nat
  previous : Nat

/-- The task file. -/
structure TaskFile where
  device : Nat
  seccount : Fifo
  lbalo : Fifo
  lbamid : Fifo
  lbahi : Fifo

/-- What happens while a drive is read. -/
structure AtaEvents where
  /-- `ata_native`. -/
  native : Bool
  /-- The channel can be selected for the read access with this number. -/
  readSelect : Nat → Bool
  /-- The channel can be selected for the write access with this number. -/
  writeSelect : Nat → Bool
  status : Nat → UInt8
  /-- The transfer of a sector ends in time. -/
  completes : Nat → Bool
  /-- What is read when no command has been given. -/
  noise : Nat → Bytes
  /-- The task file after a reset. -/
  signature : TaskFile
  /-- Whether the start bit is found set, by transfer of the native mode and poll. -/
  startBit : Nat → Nat → Bool

/--
The accesses so far, the task file, and the sector of the last command; the transfers of the
native mode, and how often their start bits have been polled.
-/
structure AtaState where
  accesses : Nat
  taskFile : TaskFile
  command : Option Nat
  imms : Nat
  polls : Nat

/-- A second write keeps the first. -/
def Fifo.push (f : Fifo) (val : Nat) : Fifo :=
  ⟨val, f.current⟩

/-- The sector of a 28-bit command. -/
def TaskFile.lba28 (t : TaskFile) : Nat :=
  t.lbalo.current + t.lbamid.current * 0x100 + t.lbahi.current * 0x10000 +
    t.device % 0x10 * 0x1000000

/-- The sector of a 48-bit command. -/
def TaskFile.lba48 (t : TaskFile) : Nat :=
  t.lbalo.current + t.lbamid.current * 0x100 + t.lbahi.current * 0x10000 +
    t.lbalo.previous * 0x1000000 + t.lbamid.previous * 0x100000000 +
    t.lbahi.previous * 0x10000000000

variable (e : AtaEvents) (medium : Bytes)

/-- A register is written. -/
def AtaState.write (s : AtaState) (reg : AtaReg) (val : Nat) : AtaState :=
  match reg with
  | .seccount =>
      { s with taskFile := { s.taskFile with seccount := s.taskFile.seccount.push val } }
  | .lbalo => { s with taskFile := { s.taskFile with lbalo := s.taskFile.lbalo.push val } }
  | .lbamid => { s with taskFile := { s.taskFile with lbamid := s.taskFile.lbamid.push val } }
  | .lbahi => { s with taskFile := { s.taskFile with lbahi := s.taskFile.lbahi.push val } }
  | .device => { s with taskFile := { s.taskFile with device := val } }
  | .command =>
      { s with
        command :=
          if val = ataCmdReadsectext then some s.taskFile.lba48
          else if val = ataCmdReadsect then some s.taskFile.lba28
          else none }
  | .devctrl =>
      if val &&& ataDcrSrst ≠ 0 then
        { s with taskFile := e.signature, command := none }
      else
        s

variable (fuel : Nat)

/-- `ata_select`, where the channel can be selected or not. -/
def ataSelect (selected : Bool) : Bool :=
  e.native || selected

/-- `ata_imm`. -/
def ataImm (s : AtaState) : Option AtaState :=
  if e.native then
    (awaitStartBit (e.startBit s.imms) fuel 0).map fun polls =>
      { s with imms := s.imms + 1, polls := s.polls + polls }
  else
    some s

/-- `ata_rd8` of the status. -/
def ataRd8 (s : AtaState) : Option (UInt8 × AtaState) :=
  let s' := { s with accesses := s.accesses + 1 }
  if ataSelect e (e.readSelect s.accesses) then do
    let s' ← ataImm e fuel s'
    let s' ← ataImm e fuel s'
    some (e.status s.accesses, s')
  else
    some (0xFF, s')

/-- `ata_wr8`. -/
def ataWr8 (s : AtaState) (reg : AtaReg) (val : Nat) : Option AtaState :=
  let s' := { s with accesses := s.accesses + 1 }
  if ataSelect e (e.writeSelect s.accesses) then
    (ataImm e fuel s').map fun s' => AtaState.write e s' reg val
  else
    some s'

/-- `ata_rd_buffer`. -/
def ataRdBuffer (s : AtaState) : Option (Option Bytes × AtaState) :=
  let s' := { s with accesses := s.accesses + 1 }
  let buf :=
    match s.command with
    | some lba => blockAt medium (lba * blockSize)
    | none => e.noise s.accesses
  if ataSelect e (e.readSelect s.accesses) then
    (ataImm e fuel s').map fun s' =>
      (if e.completes s.accesses then some buf else none, s')
  else
    some (none, s')

/-- The loop of `ata_wait`. -/
def ataWaitLoop (mask want : UInt8) : Nat → AtaState → Option (Bool × AtaState)
  | 0, s => some (false, s)
  | left + 1, s => do
      let st ← ataRd8 e fuel s
      if st.1 = 0xFF then some (false, st.2)
      else if st.1 &&& mask = want then some (true, st.2)
      else ataWaitLoop mask want left st.2

/-- `ata_wait`. -/
def ataWait (mask want : UInt8) (s : AtaState) : Option (Bool × AtaState) :=
  ataWaitLoop e fuel mask want 100000 s

/-- `ata_soft_reset`. -/
def ataSoftReset (s : AtaState) : Option AtaState := do
  let s ← ataWr8 e fuel s .devctrl (ataDcrSrst ||| ataDcrNien)
  let s ← ataWr8 e fuel s .devctrl ataDcrNien
  let settled ← ataWait e fuel ataSrBsy 0 s
  some settled.2

/-- The register writes of `ata_read_one`. -/
def ataGiveCommand (lba48 : Bool) (lba : Nat) (s : AtaState) : Option AtaState :=
  if lba48 then do
    let s ← ataWr8 e fuel s .device ataHeadUseLba
    let s ← ataWr8 e fuel s .seccount 0
    let s ← ataWr8 e fuel s .lbalo (lba / 0x1000000 % 0x100)
    let s ← ataWr8 e fuel s .lbamid 0
    let s ← ataWr8 e fuel s .lbahi 0
    let s ← ataWr8 e fuel s .seccount 1
    let s ← ataWr8 e fuel s .lbalo (lba % 0x100)
    let s ← ataWr8 e fuel s .lbamid (lba / 0x100 % 0x100)
    let s ← ataWr8 e fuel s .lbahi (lba / 0x10000 % 0x100)
    ataWr8 e fuel s .command ataCmdReadsectext
  else do
    let s ← ataWr8 e fuel s .device (ataHeadUseLba ||| lba / 0x1000000 % 0x10)
    let s ← ataWr8 e fuel s .seccount 1
    let s ← ataWr8 e fuel s .lbalo (lba % 0x100)
    let s ← ataWr8 e fuel s .lbamid (lba / 0x100 % 0x100)
    let s ← ataWr8 e fuel s .lbahi (lba / 0x10000 % 0x100)
    ataWr8 e fuel s .command ataCmdReadsect

/-- `ata_read_one`. -/
def ataReadOne (lba48 : Bool) (lba : Nat) (s : AtaState) :
    Option (Option Bytes × AtaState) := do
  let idle ← ataWait e fuel ataSrBsy 0 s
  if idle.1 then
    let s ← ataGiveCommand e fuel lba48 lba idle.2
    let data ← ataWait e fuel (ataSrBsy ||| ataSrDrq) ataSrDrq s
    if data.1 then
      let st ← ataRd8 e fuel data.2
      if st.1 &&& ataSrErr ≠ 0 then some (none, st.2) else ataRdBuffer e medium fuel st.2
    else
      some (none, data.2)
  else
    some (none, idle.2)

/-- The reset before an attempt that is not the first. -/
def ataBeforeAttempt (t : Nat) (s : AtaState) : Option AtaState :=
  if t > 0 then ataSoftReset e fuel s else some s

/-- The attempts of `ata_read` at one sector, from attempt `t` on. -/
def ataAttempts (lba48 : Bool) (lba : Nat) :
    Nat → Nat → AtaState → Option (Option Bytes × AtaState)
  | 0, _, s => some (none, s)
  | left + 1, t, s => do
      let s ← ataBeforeAttempt e fuel t s
      let r ← ataReadOne e medium fuel lba48 lba s
      match r.1 with
      | some block => some (some block, r.2)
      | none => ataAttempts lba48 lba left (t + 1) r.2

/-- The loop of `ata_read` over the sectors. -/
def ataReadLoop (lba48 : Bool) (sector count : Nat) (s : AtaState) (data : Bytes) :
    Option (Bool × Bytes × AtaState) :=
  eachBlock
    (fun i s => ataAttempts e medium fuel lba48 (word (sector + i)) ataReadRetries 0 s)
    count 0 s data

/-- `ata_read`. -/
def ataRead
    (lba48 : Bool) (sector count : Nat) (s : AtaState) (data : Bytes) :
    Option (Bool × Bytes) :=
  (ataReadLoop e medium fuel lba48 sector count s data).map fun r => (r.1, r.2.1)

variable {e : AtaEvents} {medium : Bytes} {fuel : Nat} {s s' : AtaState}
variable {lba48 : Bool} {lba : Nat}

/-- Every register write reaches the drive. -/
def AtaEvents.WritesReach (e : AtaEvents) : Prop :=
  ∀ n, e.writeSelect n = true

/-- The sector that a command for `lba` is about. -/
def ataAddressed (lba48 : Bool) (lba : Nat) : Nat :=
  if lba48 then lba else lba % 0x10000000

/-- A transfer changes nothing but what is counted of it. -/
theorem ataImm_some (h : ataImm e fuel s = some s') :
    ∃ imms polls, s' = { s with imms := imms, polls := polls } := by
  rw [ataImm] at h
  split at h
  · obtain ⟨polls, _, rfl⟩ := Option.map_eq_some_iff.1 h
    exact ⟨_, _, rfl⟩
  · cases h
    exact ⟨s.imms, s.polls, rfl⟩

theorem ataWr8_reaches
    {reg : AtaReg} {val : Nat} (h : e.WritesReach) (hr : ataWr8 e fuel s reg val = some s') :
    ∃ imms polls,
      s' = AtaState.write e
        { s with accesses := s.accesses + 1, imms := imms, polls := polls } reg val := by
  simp only [ataWr8, ataSelect, h s.accesses, Bool.or_true, if_true] at hr
  obtain ⟨s₁, himm, rfl⟩ := Option.map_eq_some_iff.1 hr
  obtain ⟨imms, polls, rfl⟩ := ataImm_some himm
  exact ⟨imms, polls, rfl⟩

theorem ataRd8_command {st : UInt8} (h : ataRd8 e fuel s = some (st, s')) :
    s'.command = s.command := by
  simp only [ataRd8] at h
  split at h
  · simp only [Option.bind_eq_bind, Option.bind_eq_some_iff, Option.some.injEq,
      Prod.mk.injEq] at h
    obtain ⟨s₁, hfirst, s₂, hsecond, _, rfl⟩ := h
    obtain ⟨_, _, rfl⟩ := ataImm_some hsecond
    obtain ⟨_, _, rfl⟩ := ataImm_some hfirst
    rfl
  · cases h
    rfl

theorem ataWaitLoop_command
    {mask want : UInt8} {left : Nat} {ok : Bool}
    (h : ataWaitLoop e fuel mask want left s = some (ok, s')) : s'.command = s.command := by
  induction left generalizing s with
  | zero =>
      cases h
      rfl
  | succ left ih =>
      simp only [ataWaitLoop, Option.bind_eq_bind, Option.bind_eq_some_iff] at h
      obtain ⟨⟨st, s₁⟩, hst, hrest⟩ := h
      have hread := ataRd8_command hst
      split at hrest
      · cases hrest
        exact hread
      · split at hrest
        · cases hrest
          exact hread
        · exact (ih hrest).trans hread

theorem device_nibble (n : Nat) (hn : n < 0x10) : (ataHeadUseLba ||| n) % 0x10 = n := by
  have hall : ∀ m < 0x10, (ataHeadUseLba ||| m) % 0x10 = m := by decide
  exact hall n hn

/-- The task file that the writes leave is the one of the sector. -/
theorem ataGiveCommand_command
    (h : e.WritesReach) (hlba : lba < 0x100000000)
    (hr : ataGiveCommand e fuel lba48 lba s = some s') :
    s'.command = some (ataAddressed lba48 lba) := by
  cases lba48 with
  | true =>
      simp only [ataGiveCommand, if_true, Option.bind_eq_bind, Option.bind_eq_some_iff] at hr
      obtain ⟨s₁, h₁, s₂, h₂, s₃, h₃, s₄, h₄, s₅, h₅, s₆, h₆, s₇, h₇, s₈, h₈, s₉, h₉, h₁₀⟩ :=
        hr
      obtain ⟨_, _, rfl⟩ := ataWr8_reaches h h₁
      obtain ⟨_, _, rfl⟩ := ataWr8_reaches h h₂
      obtain ⟨_, _, rfl⟩ := ataWr8_reaches h h₃
      obtain ⟨_, _, rfl⟩ := ataWr8_reaches h h₄
      obtain ⟨_, _, rfl⟩ := ataWr8_reaches h h₅
      obtain ⟨_, _, rfl⟩ := ataWr8_reaches h h₆
      obtain ⟨_, _, rfl⟩ := ataWr8_reaches h h₇
      obtain ⟨_, _, rfl⟩ := ataWr8_reaches h h₈
      obtain ⟨_, _, rfl⟩ := ataWr8_reaches h h₉
      obtain ⟨_, _, rfl⟩ := ataWr8_reaches h h₁₀
      simp only [AtaState.write, Fifo.push, if_true, TaskFile.lba48, ataAddressed]
      congr 1
      omega
  | false =>
      have hother : ataCmdReadsect ≠ ataCmdReadsectext := by decide
      simp only [ataGiveCommand, Bool.false_eq_true, if_false, Option.bind_eq_bind,
        Option.bind_eq_some_iff] at hr
      obtain ⟨s₁, h₁, s₂, h₂, s₃, h₃, s₄, h₄, s₅, h₅, h₆⟩ := hr
      obtain ⟨_, _, rfl⟩ := ataWr8_reaches h h₁
      obtain ⟨_, _, rfl⟩ := ataWr8_reaches h h₂
      obtain ⟨_, _, rfl⟩ := ataWr8_reaches h h₃
      obtain ⟨_, _, rfl⟩ := ataWr8_reaches h h₄
      obtain ⟨_, _, rfl⟩ := ataWr8_reaches h h₅
      obtain ⟨_, _, rfl⟩ := ataWr8_reaches h h₆
      simp only [AtaState.write, Fifo.push, if_neg hother, if_true, TaskFile.lba28,
        ataAddressed, Bool.false_eq_true, if_false]
      rw [device_nibble _ (Nat.mod_lt _ (by decide))]
      congr 1
      omega

/-- What comes from the buffer of the drive is the sector of the command. -/
theorem ataRdBuffer_block
    {block : Bytes} {lba : Nat} (hcommand : s.command = some lba)
    (h : ataRdBuffer e medium fuel s = some (some block, s')) :
    block = blockAt medium (lba * blockSize) := by
  simp only [ataRdBuffer, hcommand] at h
  split at h
  · obtain ⟨s₁, _, hr⟩ := Option.map_eq_some_iff.1 h
    simp only [Prod.mk.injEq] at hr
    obtain ⟨hblock, _⟩ := hr
    split at hblock
    · exact (Option.some.inj hblock).symm
    · cases hblock
  · cases h

/-- A sector that is read is the one of the command. -/
theorem ataReadOne_block
    {block : Bytes} (h : e.WritesReach) (hlba : lba < 0x100000000)
    (hr : ataReadOne e medium fuel lba48 lba s = some (some block, s')) :
    block = blockAt medium (ataAddressed lba48 lba * blockSize) := by
  simp only [ataReadOne, Option.bind_eq_bind, Option.bind_eq_some_iff] at hr
  obtain ⟨⟨idle, s₁⟩, _, hr⟩ := hr
  split at hr
  · simp only [Option.bind_eq_some_iff] at hr
    obtain ⟨s₂, hgive, ⟨data, s₃⟩, hdata, hr⟩ := hr
    have hcommand := ataGiveCommand_command h hlba hgive
    have hwaited := ataWaitLoop_command hdata
    split at hr
    · simp only [Option.bind_eq_some_iff] at hr
      obtain ⟨⟨st, s₄⟩, hst, hr⟩ := hr
      have hread := ataRd8_command hst
      split at hr
      · cases hr
      · refine ataRdBuffer_block ?_ hr
        simp only at hread hwaited ⊢
        rw [hread, hwaited, hcommand]
    · cases hr
  · cases hr

theorem ataAttempts_block
    {left t : Nat} {block : Bytes} (h : e.WritesReach) (hlba : lba < 0x100000000)
    (hr : ataAttempts e medium fuel lba48 lba left t s = some (some block, s')) :
    block = blockAt medium (ataAddressed lba48 lba * blockSize) := by
  induction left generalizing t s with
  | zero =>
      cases hr
  | succ left ih =>
      simp only [ataAttempts, Option.bind_eq_bind, Option.bind_eq_some_iff] at hr
      obtain ⟨s₁, _, ⟨got, s₂⟩, hone, hr⟩ := hr
      cases got with
      | some block' =>
          cases hr
          exact ataReadOne_block h hlba hone
      | none => exact ih hr

/-- A drive that is ready at once, and has its data. -/
def ready : AtaEvents where
  native := false
  readSelect := fun _ => true
  writeSelect := fun _ => true
  status := fun _ => ataSrDrq
  completes := fun _ => true
  noise := fun _ _ => 0
  signature := ⟨0, ⟨1, 1⟩, ⟨1, 1⟩, ⟨0, 0⟩, ⟨0, 0⟩⟩
  startBit := fun _ _ => false

theorem ready_writesReach : ready.WritesReach :=
  fun _ => rfl

theorem ataRd8_ready (fuel : Nat) (s : AtaState) :
    ataRd8 ready fuel s = some (ataSrDrq, { s with accesses := s.accesses + 1 }) :=
  rfl

theorem ataWaitLoop_ready
    {mask want : UInt8} (hwant : ataSrDrq &&& mask = want) (fuel left : Nat) (s : AtaState) :
    ataWaitLoop ready fuel mask want (left + 1) s =
      some (true, { s with accesses := s.accesses + 1 }) := by
  have hthere : ataSrDrq ≠ 0xFF := by decide
  simp only [ataWaitLoop, ataRd8_ready, Option.bind_eq_bind, Option.bind_some, hthere,
    if_false, hwant, if_true]

theorem ataWait_ready
    {mask want : UInt8} (hwant : ataSrDrq &&& mask = want) (fuel : Nat) (s : AtaState) :
    ataWait ready fuel mask want s = some (true, { s with accesses := s.accesses + 1 }) :=
  ataWaitLoop_ready hwant fuel 99999 s

theorem ataWr8_ready (fuel : Nat) (s : AtaState) (reg : AtaReg) (val : Nat) :
    ataWr8 ready fuel s reg val =
      some (AtaState.write ready { s with accesses := s.accesses + 1 } reg val) :=
  rfl

theorem ataGiveCommand_ready (fuel : Nat) (lba48 : Bool) (lba : Nat) (s : AtaState) :
    ∃ s', ataGiveCommand ready fuel lba48 lba s = some s' := by
  cases lba48 with
  | true =>
      simp only [ataGiveCommand, if_true, ataWr8_ready, Option.bind_eq_bind, Option.bind_some]
      exact ⟨_, rfl⟩
  | false =>
      simp only [ataGiveCommand, Bool.false_eq_true, if_false, ataWr8_ready,
        Option.bind_eq_bind, Option.bind_some]
      exact ⟨_, rfl⟩

theorem ataRdBuffer_ready (medium : Bytes) (fuel : Nat) (s : AtaState) :
    ∃ block s', ataRdBuffer ready medium fuel s = some (some block, s') :=
  ⟨_, _, rfl⟩

theorem ataAttempts_ready (medium : Bytes) (fuel : Nat) (lba48 : Bool) (lba : Nat)
    (s : AtaState) :
    ∃ block s', ataAttempts ready medium fuel lba48 lba ataReadRetries 0 s =
      some (some block, s') := by
  have hidle : ataSrDrq &&& ataSrBsy = 0 := by decide
  have hdata : ataSrDrq &&& (ataSrBsy ||| ataSrDrq) = ataSrDrq := by decide
  have hgood : ¬ ataSrDrq &&& ataSrErr ≠ 0 := by decide
  obtain ⟨s₁, hgive⟩ :=
    ataGiveCommand_ready fuel lba48 lba { s with accesses := s.accesses + 1 }
  obtain ⟨block, s₂, hblock⟩ := ataRdBuffer_ready medium fuel
    { s₁ with accesses := s₁.accesses + 1 + 1 }
  refine ⟨block, s₂, ?_⟩
  simp only [ataAttempts, ataBeforeAttempt, Nat.lt_irrefl, gt_iff_lt, if_false, ataReadOne,
    ataWait_ready hidle, ataWait_ready hdata, ataRd8_ready, if_neg hgood, hgive,
    Option.bind_eq_bind, Option.bind_some, if_true, hblock]

variable {sector count : Nat} {buffer out : Bytes}

theorem ataRead_blocks
    (h : e.WritesReach) (hroom : count ≤ blocksOfMemory)
    (hr : ataRead e medium fuel lba48 (word sector) count s buffer = some (true, out)) :
    HasBlocks out
      (fun i => blockAt medium (ataAddressed lba48 (word (sector + i)) * blockSize))
      count := by
  have hword : ∀ i, word (word sector + i) = word (sector + i) := by
    intro i
    simp only [word]
    omega
  simp only [ataRead, ataReadLoop, hword] at hr
  obtain ⟨⟨ok, out', s'⟩, hloop, heq⟩ := Option.map_eq_some_iff.1 hr
  simp only [Prod.mk.injEq] at heq
  obtain ⟨rfl, rfl⟩ := heq
  have hone : ∀ i (s : AtaState) block s', True →
      ataAttempts e medium fuel lba48 (word (sector + i)) ataReadRetries 0 s =
        some (some block, s') →
      True ∧ ∀ j < blockSize, block j =
        blockAt medium (ataAddressed lba48 (word (sector + i)) * blockSize) j := by
    intro i s block s' _ hattempt
    have hblock := ataAttempts_block h word_lt hattempt
    exact ⟨trivial, fun j _ => congrFun hblock j⟩
  have hblocks := (eachBlock_sound (fun _ (_ : AtaState) => True) hone trivial
    (fun i hi => absurd hi (Nat.not_lt_zero i)) (by omega) hloop).1
  rw [Nat.zero_add] at hblocks
  exact hblocks

theorem ataRead_ready
    (medium : Bytes) (fuel : Nat) (lba48 : Bool) (sector count : Nat) (s : AtaState)
    (buffer : Bytes) :
    ∃ out, ataRead ready medium fuel lba48 sector count s buffer = some (true, out) := by
  have hone : ∀ i (s : AtaState), True →
      ∃ block s',
        ataAttempts ready medium fuel lba48 (word (sector + i)) ataReadRetries 0 s =
          some (some block, s') ∧ True := by
    intro i s _
    obtain ⟨block, s', hblock⟩ := ataAttempts_ready medium fuel lba48 (word (sector + i)) s
    exact ⟨block, s', hblock, trivial⟩
  obtain ⟨out, s', hloop, _⟩ :=
    eachBlock_total (fun _ (_ : AtaState) => True) hone count buffer (i := 0) (s := s) trivial
  exact ⟨out, by rw [ataRead, ataReadLoop, hloop, Option.map_some]⟩

/-- A read of a drive that every register write reaches, whatever else happens. -/
def ataRun (lba48 : Bool) (sector count : Nat) :
    ReadRun (Nat × { e : AtaEvents // e.WritesReach } × AtaState) :=
  fun medium events buffer =>
    ataRead events.2.1.1 medium events.1 lba48 (word sector) count events.2.2 buffer

/-- The sectors that can be read with the commands of this width. -/
def AtaReaches (lba48 : Bool) (sector count : Nat) : Prop :=
  count = 0 ∨
    count ≤ blocksOfMemory ∧
      sector + count ≤ if lba48 then 0x100000000 else 0x10000000

theorem ataAddressed_exact_iff (lba48 : Bool) (a : Nat) :
    ataAddressed lba48 (word a) * blockSize = a * blockSize ↔
      a < if lba48 then 0x100000000 else 0x10000000 := by
  cases lba48 <;>
    simp only [ataAddressed, word, blockSize, if_true, Bool.false_eq_true, if_false] <;>
    omega

theorem ata_neverAnother_iff (lba48 : Bool) (sector count : Nat) :
    NeverAnother (ataRun lba48 sector count) sector count ↔
      AtaReaches lba48 sector count := by
  have hiff := neverAnother_iff (ataRun lba48 sector count)
    (fun i => ataAddressed lba48 (word (sector + i)) * blockSize) sector count
    (fun hroom medium events buffer out hr => ataRead_blocks events.2.1.2 hroom hr)
    (fun medium =>
      ⟨(0, ⟨ready, ready_writesReach⟩, ⟨0, ready.signature, none, 0, 0⟩), fun _ => 0,
        ataRead_ready medium 0 lba48 (word sector) count _ fun _ => 0⟩)
  rw [hiff]
  simp only [ataAddressed_exact_iff, AtaReaches]
  by_cases hzero : count = 0
  · simp [hzero]
  · constructor
    · rintro ⟨hroom, hall⟩
      have hend := hall (count - 1) (by omega)
      exact Or.inr ⟨hroom, by omega⟩
    · rintro (hc | ⟨hroom, hlimit⟩)
      · exact absurd hc hzero
      · exact ⟨hroom, fun i hi => by omega⟩

end Drives
end Cubiboot
