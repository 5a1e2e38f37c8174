import Cubiboot.Drives.StartBit

/-!
# SD cards

`tsd.c` as it is built for the IPL: commands and data of an SD card on an EXI
channel.

A card takes the argument of command 17 for a number of blocks or of bytes, as
its own type has it.  The driver has one flag, `addressing_block`, for all
channels.  What an EXI transfer answers, and what a single byte that is read
turns out to be, is left to the events of a run.

In native mode every transfer succeeds, and each of its bytes waits for its start bit.
Outside of it the transfers are those of the IPL.  A function that returns `none` is still
waiting when its fuel has run out: for a start bit, or for the token before the data.

Results: `tsdSdRead_blocks`, that a block which is read is the one of the command;
`sd_neverAnother_iff`, which sectors can be asked for so that no other is delivered.
-/

namespace Cubiboot
namespace Drives

open Words

/-- One step of the loop over the bits of a byte in `tsd_crc7`. -/
def tsdCrc7Bit (byte : BitVec 32) (res : BitVec 32) (bcnt : Nat) : BitVec 32 :=
  let res := res <<< 1
  let val := byte ^^^ ((res >>> bcnt) &&& 0xFF)
  let mask : BitVec 32 := 0x80 >>> bcnt
  if mask &&& val ≠ 0 then
    let res := res ||| 0x01
    if res &&& 0x0008 = 0 then res ||| 0x0008 else res &&& ~~~0x0008
  else if res &&& 0x0008 ≠ 0 then
    res ||| 0x0008
  else
    res &&& ~~~0x0008

/-- `tsd_crc7`. -/
def tsdCrc7 (buffer : List Nat) : Nat :=
  let res :=
    buffer.foldl
      (fun res byte => (List.range 8).foldl (tsdCrc7Bit (BitVec.ofNat 32 byte)) res) 0
  ((res <<< 1) &&& 0xFF).toNat

/-- The checksum of the command that resets a card. -/
example : tsdCrc7 [0x40, 0, 0, 0, 0] ||| 1 = 0x95 := by
  decide +kernel

/-- What happens on the bus while a card is read. -/
structure SdEvents where
  /-- `tsd_native`. -/
  native : Bool
  /-- `tsd_select` succeeds. -/
  select : Bool
  /-- The transfer with this number succeeds. -/
  transfer : Nat → Bool
  /-- The byte that the transfer with this number reads. -/
  reply : Nat → UInt8
  /-- What is read when no command has been taken. -/
  noise : Bytes
  /-- Whether the start bit is found set, by byte of the native mode and poll. -/
  startBit : Nat → Nat → Bool

/-- A card, as far as it is read. -/
structure SdCard where
  blockAddressed : Bool
  medium : Bytes

/--
The number of transfers so far, and the address of the last command 17; the bytes of the
native mode, and how often their start bits have been polled.
-/
structure SdState where
  transfers : Nat
  address : Option Nat
  bytes : Nat
  polls : Nat

/-- The command of the loop of `tsd_sd_read`. -/
abbrev readSingleBlock : Nat := 17

/-- The six bytes of a command. -/
def sdFrame (cmd arg : Nat) : List Nat :=
  let body :=
    [0x40 ||| cmd, arg / 0x1000000 % 0x100, arg / 0x10000 % 0x100, arg / 0x100 % 0x100,
      arg % 0x100]
  body ++ [tsdCrc7 body ||| 1]

/-- The address that a card makes of an argument. -/
def SdCard.addressOf (card : SdCard) (arg : Nat) : Nat :=
  if card.blockAddressed then arg * blockSize else arg

/-- A card takes a command. -/
def SdCard.receive (card : SdCard) (frame : List Nat) (s : SdState) : SdState :=
  match frame with
  | [b0, b1, b2, b3, b4, _] =>
      if b0 = (0x40 ||| readSingleBlock) then
        { s with
          address :=
            some (card.addressOf (b1 * 0x1000000 + b2 * 0x10000 + b3 * 0x100 + b4)) }
      else
        s
  | _ => s

variable (e : SdEvents) (card : SdCard) (fuel : Nat)

/-- `tsd_select`. -/
def tsdSelect : Bool :=
  e.native || e.select

/-- A transfer succeeds. -/
def SdEvents.succeeds (n : Nat) : Bool :=
  e.native || e.transfer n

/-- `native_exi_imm_rw`. -/
def nativeExiImmRw (s : SdState) : Option SdState :=
  (awaitStartBit (e.startBit s.bytes) fuel 0).map fun polls =>
    { s with bytes := s.bytes + 1, polls := s.polls + polls }

/-- The loop of `tsd_read` and of `tsd_write` in native mode. -/
def nativeBytes : Nat → SdState → Option SdState
  | 0, s => some s
  | left + 1, s => do
      let s ← nativeExiImmRw e fuel s
      nativeBytes left s

/-- A call of `tsd_read` or of `tsd_write`. -/
def tsdTransfer (len : Nat) (s : SdState) : Option (Bool × SdState) :=
  if e.native then
    (nativeBytes e fuel len s).map fun s => (true, { s with transfers := s.transfers + 1 })
  else
    some (e.transfer s.transfers, { s with transfers := s.transfers + 1 })

/-- `tsd_read` of one byte. -/
def tsdReadByte (s : SdState) : Option (Bool × UInt8 × SdState) :=
  (tsdTransfer e fuel 1 s).map fun r => (r.1, e.reply s.transfers, r.2)

/-- `tsd_read` of bytes that are not looked at. -/
def tsdReadDummy (len : Nat) (s : SdState) : Option (Bool × SdState) :=
  tsdTransfer e fuel len s

/-- `tsd_read` of a block. -/
def tsdReadBlock (s : SdState) : Option (Bool × Bytes × SdState) :=
  let block :=
    match s.address with
    | some address => blockAt card.medium address
    | none => e.noise
  (tsdTransfer e fuel blockSize s).map fun r => (r.1, block, r.2)

/-- `tsd_write` of a command. -/
def tsdWriteFrame (frame : List Nat) (s : SdState) : Option (Bool × SdState) :=
  (tsdTransfer e fuel frame.length s).map fun r =>
    (r.1, if r.1 then card.receive frame r.2 else r.2)

/-- The loop of `tsd_send_cmd` for the first byte of the response. -/
def tsdAwaitResponse : Nat → SdState → Option (Option UInt8 × SdState)
  | 0, s => some (none, s)
  | left + 1, s => do
      let r ← tsdReadByte e fuel s
      if r.1 = false then some (none, r.2.2)
      else if r.2.1 &&& 0x80 ≠ 0 then tsdAwaitResponse left r.2.2
      else some (some r.2.1, r.2.2)

/-- `tsd_send_cmd` with a response of one byte. -/
def tsdSendCmd (cmd arg : Nat) (s : SdState) : Option (Option UInt8 × SdState) := do
  let dummy ← tsdReadDummy e fuel 100 s
  let sent ← tsdWriteFrame e card fuel (sdFrame cmd arg) dummy.2
  if sent.1 = false then some (none, sent.2) else tsdAwaitResponse e fuel 17 sent.2

/-- The loop of `tsd_recv_data` for the token: it does not return when the fuel runs out. -/
def tsdAwaitToken : Nat → SdState → Option (Bool × SdState)
  | 0, _ => none
  | left + 1, s => do
      let r ← tsdReadByte e fuel s
      if r.1 = false then some (false, r.2.2)
      else if r.2.1 ≠ 0xFE then tsdAwaitToken left r.2.2
      else some (true, r.2.2)

/-- `tsd_recv_data`. -/
def tsdRecvData (s : SdState) : Option (Option Bytes × SdState) := do
  let token ← tsdAwaitToken e fuel fuel s
  if token.1 = false then some (none, token.2)
  else
    let data ← tsdReadBlock e card fuel token.2
    if data.1 = false then some (none, data.2.2)
    else
      let crc ← tsdReadDummy e fuel 2 data.2.2
      some (if crc.1 then some data.2.1 else none, crc.2)

/-- One pass of the loop of `tsd_sd_read`. -/
def tsdReadOne (addressingBlock : Bool) : ReadOne (Nat × SdState) :=
  fun _ s => do
    let sent ← tsdSendCmd e card fuel readSingleBlock s.1 s.2
    if sent.1 = some 0 then
      let got ← tsdRecvData e card fuel sent.2
      some (got.1, word (s.1 + if addressingBlock then 1 else 512), got.2)
    else
      some (none, s.1, sent.2)

/-- The loop of `tsd_sd_read` over the blocks. -/
def tsdReadLoop
    (addressingBlock : Bool) (addr len : Nat) (s : SdState) (data : Bytes) :
    Option (Bool × Bytes × Nat × SdState) :=
  let addr := if addressingBlock then addr else word (addr * 512)
  eachBlock (tsdReadOne e card fuel addressingBlock) len 0 (addr, s) data

/-- `tsd_sd_read`. -/
def tsdSdRead
    (addressingBlock : Bool) (addr len : Nat) (s : SdState) (data : Bytes) :
    Option (Bool × Bytes) :=
  if tsdSelect e then
    (tsdReadLoop e card fuel addressingBlock addr len s data).map fun r => (r.1, r.2.1)
  else
    some (false, data)

variable {e : SdEvents} {card : SdCard} {fuel : Nat} {s s' : SdState} {arg : Nat}

/-- The argument that a frame carries. -/
theorem sdFrame_arg (harg : arg < 0x100000000) :
    (card.receive (sdFrame readSingleBlock arg) s).address = some (card.addressOf arg) := by
  simp only [sdFrame, List.cons_append, List.nil_append, SdCard.receive, if_true]
  congr 2
  omega

/-- What the bytes of a transfer in native mode cost, and what they leave as it is. -/
structure Exchanged (fuel len : Nat) (s s' : SdState) : Prop where
  transfers : s'.transfers = s.transfers
  address : s'.address = s.address
  least : s.polls ≤ s'.polls
  most : s'.polls ≤ s.polls + len * fuel

theorem nativeBytes_some {len : Nat} (h : nativeBytes e fuel len s = some s') :
    Exchanged fuel len s s' := by
  induction len generalizing s with
  | zero =>
      cases h
      exact ⟨rfl, rfl, Nat.le_refl _, Nat.le_add_right _ _⟩
  | succ len ih =>
      simp only [nativeBytes, Option.bind_eq_bind, Option.bind_eq_some_iff] at h
      obtain ⟨s₁, hfirst, hrest⟩ := h
      obtain ⟨polls, hpolls, rfl⟩ := Option.map_eq_some_iff.1 hfirst
      have hmost := awaitStartBit_le hpolls
      have hlater := ih hrest
      have hleast := hlater.least
      have hless := hlater.most
      simp only at hleast hless
      have hsize : (len + 1) * fuel = len * fuel + fuel := Nat.succ_mul len fuel
      exact ⟨hlater.transfers, hlater.address, by omega, by omega⟩

/-- What a transfer comes to, if it does. -/
structure Transferred (e : SdEvents) (fuel len : Nat) (s : SdState) (ok : Bool) (s' : SdState) :
    Prop where
  result : ok = e.succeeds s.transfers
  transfers : s'.transfers = s.transfers + 1
  address : s'.address = s.address
  least : s.polls ≤ s'.polls
  most : s'.polls ≤ s.polls + len * fuel

theorem tsdTransfer_some {len : Nat} {ok : Bool} (h : tsdTransfer e fuel len s = some (ok, s')) :
    Transferred e fuel len s ok s' := by
  rw [tsdTransfer] at h
  split at h
  · rename_i hnative
    obtain ⟨s₁, hbytes, hr⟩ := Option.map_eq_some_iff.1 h
    cases hr
    have hexchanged := nativeBytes_some hbytes
    refine ⟨?_, ?_, hexchanged.address, hexchanged.least, hexchanged.most⟩
    · rw [SdEvents.succeeds, hnative, Bool.true_or]
    · simp only [hexchanged.transfers]
  · rename_i hnative
    cases h
    refine ⟨?_, rfl, rfl, Nat.le_refl _, Nat.le_add_right _ _⟩
    rw [SdEvents.succeeds, Bool.eq_false_iff.2 hnative, Bool.false_or]

theorem tsdReadByte_some {ok : Bool} {b : UInt8} (h : tsdReadByte e fuel s = some (ok, b, s')) :
    b = e.reply s.transfers ∧ Transferred e fuel 1 s ok s' := by
  obtain ⟨⟨ok', s₁⟩, htransfer, hr⟩ := Option.map_eq_some_iff.1 h
  cases hr
  exact ⟨rfl, tsdTransfer_some htransfer⟩

theorem tsdAwaitResponse_address
    {left : Nat} {resp : Option UInt8} (h : tsdAwaitResponse e fuel left s = some (resp, s')) :
    s'.address = s.address := by
  induction left generalizing s with
  | zero =>
      cases h
      rfl
  | succ left ih =>
      simp only [tsdAwaitResponse, Option.bind_eq_bind, Option.bind_eq_some_iff] at h
      obtain ⟨⟨ok, b, s₁⟩, hread, hrest⟩ := h
      have hkept := (tsdReadByte_some hread).2.address
      split at hrest
      · cases hrest
        exact hkept
      · split at hrest
        · exact (ih hrest).trans hkept
        · cases hrest
          exact hkept

theorem tsdAwaitToken_address
    {left : Nat} {ok : Bool} (h : tsdAwaitToken e fuel left s = some (ok, s')) :
    s'.address = s.address := by
  induction left generalizing s with
  | zero =>
      cases h
  | succ left ih =>
      simp only [tsdAwaitToken, Option.bind_eq_bind, Option.bind_eq_some_iff] at h
      obtain ⟨⟨ok', b, s₁⟩, hread, hrest⟩ := h
      have hkept := (tsdReadByte_some hread).2.address
      split at hrest
      · cases hrest
        exact hkept
      · split at hrest
        · exact (ih hrest).trans hkept
        · cases hrest
          exact hkept

/-- A command that is answered has been taken. -/
theorem tsdSendCmd_address
    {resp : UInt8} (harg : arg < 0x100000000)
    (h : tsdSendCmd e card fuel readSingleBlock arg s = some (some resp, s')) :
    s'.address = some (card.addressOf arg) := by
  simp only [tsdSendCmd, Option.bind_eq_bind, Option.bind_eq_some_iff] at h
  obtain ⟨⟨_, s₁⟩, _, ⟨ok, s₂⟩, hsent, hresp⟩ := h
  split at hresp
  · cases hresp
  · rename_i hok
    rw [tsdAwaitResponse_address hresp]
    obtain ⟨⟨ok', s₃⟩, _, hr⟩ := Option.map_eq_some_iff.1 hsent
    cases hr
    simp only [Bool.not_eq_false] at hok
    simp only [hok, if_true]
    exact sdFrame_arg harg

/-- The data that follows is the block at the address of the command. -/
theorem tsdRecvData_block
    {address : Nat} {block : Bytes} (haddress : s.address = some address)
    (h : tsdRecvData e card fuel s = some (some block, s')) :
    block = blockAt card.medium address := by
  simp only [tsdRecvData, Option.bind_eq_bind, Option.bind_eq_some_iff] at h
  obtain ⟨⟨ok, s₁⟩, htoken, hdata⟩ := h
  have hkept := tsdAwaitToken_address htoken
  rw [haddress] at hkept
  split at hdata
  · cases hdata
  · simp only [Option.bind_eq_some_iff] at hdata
    obtain ⟨⟨ok', block', s₂⟩, hread, hcrc⟩ := hdata
    simp only [tsdReadBlock, hkept] at hread
    obtain ⟨r, _, hr⟩ := Option.map_eq_some_iff.1 hread
    cases hr
    split at hcrc
    · cases hcrc
    · simp only [Option.bind_eq_some_iff, Option.some.injEq, Prod.mk.injEq] at hcrc
      obtain ⟨crc, _, hblock, _⟩ := hcrc
      split at hblock
      · exact (Option.some.inj hblock).symm
      · cases hblock

/-- How far the argument moves on from block to block. -/
def sdUnit (addressingBlock : Bool) : Nat :=
  if addressingBlock then 1 else 512

/-- The argument for a block. -/
def sdArg (addressingBlock : Bool) (sector i : Nat) : Nat :=
  word ((sector + i) * sdUnit addressingBlock)

theorem sdArg_next (addressingBlock : Bool) (sector i : Nat) :
    word (sdArg addressingBlock sector i + sdUnit addressingBlock) =
      sdArg addressingBlock sector (i + 1) := by
  cases addressingBlock <;> simp only [sdArg, sdUnit, word] <;> simp <;> omega

/-- The argument for the first block. -/
theorem sdArg_first (addressingBlock : Bool) (sector : Nat) :
    (if addressingBlock then word sector else word (word sector * 512)) =
      sdArg addressingBlock sector 0 := by
  cases addressingBlock <;> simp only [sdArg, sdUnit, word] <;> simp

theorem tsdReadOne_block
    {i : Nat} {addressingBlock : Bool} {sector : Nat} {s s' : Nat × SdState}
    {block : Bytes} (hs : s.1 = sdArg addressingBlock sector i)
    (h : tsdReadOne e card fuel addressingBlock i s = some (some block, s')) :
    s'.1 = sdArg addressingBlock sector (i + 1) ∧
      block = blockAt card.medium (card.addressOf (sdArg addressingBlock sector i)) := by
  have harg : s.1 < 0x100000000 := by
    rw [hs]
    exact word_lt
  have hnext := sdArg_next addressingBlock sector i
  rw [← hs] at hnext
  simp only [tsdReadOne, Option.bind_eq_bind, Option.bind_eq_some_iff] at h
  obtain ⟨⟨resp, sd⟩, hsent, hrest⟩ := h
  split at hrest
  · rename_i hresp
    simp only at hresp
    rw [hresp] at hsent
    have haddress := tsdSendCmd_address harg hsent
    simp only [Option.bind_eq_some_iff] at hrest
    obtain ⟨⟨got, sd'⟩, hdata, hr⟩ := hrest
    cases hr
    rw [← hs]
    exact ⟨hnext, tsdRecvData_block haddress hdata⟩
  · cases hrest

/-- Six transfers a block: the fourth is the token. -/
def answering : SdEvents where
  native := false
  select := true
  transfer := fun _ => true
  reply := fun n => if n % 6 = 3 then 0xFE else 0
  noise := fun _ => 0
  startBit := fun _ _ => false

theorem tsdTransfer_answering (fuel len : Nat) (s : SdState) :
    tsdTransfer answering fuel len s = some (true, { s with transfers := s.transfers + 1 }) :=
  rfl

theorem answering_reply (n : Nat) : answering.reply n = if n % 6 = 3 then 0xFE else 0 :=
  rfl

theorem tsdReadOne_answering
    {i : Nat} {addressingBlock : Bool} {s : Nat × SdState}
    (hs : s.2.transfers = 6 * i) :
    ∃ block s', tsdReadOne answering card 1 addressingBlock i s = some (some block, s') ∧
      s'.2.transfers = 6 * (i + 1) := by
  have hresponse : (s.2.transfers + 1 + 1) % 6 ≠ 3 := by omega
  have htoken : (s.2.transfers + 1 + 1 + 1) % 6 = 3 := by omega
  have hdry : (0 : UInt8) &&& 0x80 = 0 := by decide
  simp only [tsdReadOne, tsdSendCmd, tsdReadDummy, tsdWriteFrame, tsdAwaitResponse,
    tsdReadByte, tsdRecvData, tsdAwaitToken, tsdReadBlock, tsdTransfer_answering,
    Option.map_some, Option.bind_eq_bind, Option.bind_some, answering_reply, sdFrame,
    List.cons_append, List.nil_append, SdCard.receive, if_true, hresponse, if_false, hdry,
    ne_eq, not_true_eq_false, htoken, Bool.true_eq_false]
  exact ⟨_, _, rfl, by simp only; omega⟩

variable {addressingBlock : Bool} {sector count : Nat} {buffer out : Bytes}

theorem tsdSdRead_blocks
    (hroom : count ≤ blocksOfMemory)
    (hr : tsdSdRead e card fuel addressingBlock (word sector) count s buffer =
      some (true, out)) :
    HasBlocks out
      (fun i => blockAt card.medium (card.addressOf (sdArg addressingBlock sector i)))
      count := by
  simp only [tsdSdRead, tsdReadLoop, sdArg_first] at hr
  split at hr
  · obtain ⟨⟨ok, out', s'⟩, hloop, heq⟩ := Option.map_eq_some_iff.1 hr
    simp only [Prod.mk.injEq] at heq
    obtain ⟨rfl, rfl⟩ := heq
    have hone : ∀ i (s : Nat × SdState) block s', s.1 = sdArg addressingBlock sector i →
        tsdReadOne e card fuel addressingBlock i s = some (some block, s') →
        s'.1 = sdArg addressingBlock sector (i + 1) ∧ ∀ j < blockSize,
          block j = blockAt card.medium (card.addressOf (sdArg addressingBlock sector i)) j := by
      intro i s block s' hs hread
      obtain ⟨hnext, hblock⟩ := tsdReadOne_block hs hread
      exact ⟨hnext, fun j _ => congrFun hblock j⟩
    have hblocks := (eachBlock_sound _ hone rfl
      (fun i hi => absurd hi (Nat.not_lt_zero i)) (by omega) hloop).1
    rw [Nat.zero_add] at hblocks
    exact hblocks
  · cases hr

/-- Nothing has been transferred yet. -/
def sdStart : SdState :=
  ⟨0, none, 0, 0⟩

theorem tsdSdRead_answering (card : SdCard) (buffer : Bytes) :
    ∃ out, tsdSdRead answering card 1 addressingBlock (word sector) count sdStart buffer =
      some (true, out) := by
  have hselect : tsdSelect answering = true := rfl
  simp only [tsdSdRead, tsdReadLoop, if_pos hselect]
  have hone : ∀ i (s : Nat × SdState), s.2.transfers = 6 * i →
      ∃ block s', tsdReadOne answering card 1 addressingBlock i s = some (some block, s') ∧
        s'.2.transfers = 6 * (i + 1) :=
    fun _ _ hs => tsdReadOne_answering hs
  obtain ⟨out, s', hloop, _⟩ := eachBlock_total _ hone count buffer
    (s := ((if addressingBlock then word sector else word (word sector * 512) : Nat),
      sdStart)) (i := 0) rfl
  exact ⟨out, by rw [hloop]; rfl⟩

/-- A read of a card, whatever happens on the bus. -/
def sdRun (blockAddressed addressingBlock : Bool) (sector count : Nat) :
    ReadRun (Nat × SdEvents × SdState) :=
  fun medium events buffer =>
    tsdSdRead events.2.1 ⟨blockAddressed, medium⟩ events.1 addressingBlock (word sector)
      count events.2.2 buffer

/-- The sectors that can be read from a card with this flag. -/
def SdReaches (blockAddressed addressingBlock : Bool) (sector count : Nat) : Prop :=
  count = 0 ∨
    count ≤ blocksOfMemory ∧
      if addressingBlock = blockAddressed then
        if blockAddressed then sector + count ≤ 0x100000000 else sector + count ≤ 0x800000
      else
        sector = 0 ∧ count = 1

/-- A card and its driver agree on a block exactly below the limit. -/
theorem sdArg_exact_iff (blockAddressed addressingBlock : Bool) (medium : Bytes) (a : Nat) :
    SdCard.addressOf ⟨blockAddressed, medium⟩ (word (a * sdUnit addressingBlock)) =
        a * blockSize ↔
      if addressingBlock = blockAddressed then
        if blockAddressed then a < 0x100000000 else a < 0x800000
      else
        a = 0 := by
  cases blockAddressed <;> cases addressingBlock <;>
    simp only [SdCard.addressOf, sdUnit, word, blockSize, if_true, Bool.false_eq_true,
      if_false, Bool.true_eq_false, Nat.mul_one] <;>
    omega

/-- The driver never delivers another sector exactly within what it reaches. -/
theorem sd_neverAnother_iff (blockAddressed addressingBlock : Bool) (sector count : Nat) :
    NeverAnother (sdRun blockAddressed addressingBlock sector count) sector count ↔
      SdReaches blockAddressed addressingBlock sector count := by
  have hiff := neverAnother_iff (sdRun blockAddressed addressingBlock sector count)
    (fun i => SdCard.addressOf ⟨blockAddressed, fun _ => 0⟩ (sdArg addressingBlock sector i))
    sector count
    (fun hroom medium events buffer out hr => tsdSdRead_blocks hroom hr)
    (fun medium =>
      ⟨(1, answering, sdStart), fun _ => 0, tsdSdRead_answering ⟨_, medium⟩ fun _ => 0⟩)
  rw [hiff]
  simp only [sdArg, sdArg_exact_iff, SdReaches]
  by_cases hzero : count = 0
  · simp [hzero]
  · have hlast : count - 1 < count := by omega
    constructor
    · rintro ⟨hroom, hall⟩
      refine Or.inr ⟨hroom, ?_⟩
      have hend := hall (count - 1) hlast
      split
      · rename_i hagree
        rw [if_pos hagree] at hend
        split <;> rename_i hb <;> simp only [hb] at hend
        · simp only [if_true] at hend
          omega
        · simp only [Bool.false_eq_true, if_false] at hend
          omega
      · rename_i hdiffer
        rw [if_neg hdiffer] at hend
        omega
    · rintro (hc | ⟨hroom, hlimit⟩)
      · exact absurd hc hzero
      · refine ⟨hroom, fun i hi => ?_⟩
        split at hlimit
        · rename_i hagree
          rw [if_pos hagree]
          split at hlimit <;> rename_i hb <;> simp only [hb]
          · simp only [if_true]
            omega
          · simp only [Bool.false_eq_true, if_false]
            omega
        · rename_i hdiffer
          rw [if_neg hdiffer]
          omega

end Drives
end Cubiboot
