import Cubiboot.Drives.Polls
import Cubiboot.Drives.Sd

/-!
# Reads that wait for a card

What `tsd_sd_read` does when a card answers anything at all.  A command waits for the first
byte of its response, but only so long; after a command that has been accepted the driver
waits for the token before the data, and goes on waiting until the token comes or a transfer
fails.  In native mode every byte that is transferred waits for its start bit as well.

`SdSpent` is what the functions of the driver spend: transfers, and for each of them the
polls of the start bits of a block at most.

Results: `tsdAwaitToken_within` and `tsdAwaitToken_ends`, the wait for the token, where it
comes and where it has come; `Accepted.tsdSendCmd` and `tsdSendCmd_accepted`, what it is
for a command to be accepted; `sdReadsEnd_of_tokens` and `tokens_of_sdReadsEnd`, that reads
end, within transactions that depend on their count, exactly when the start bits are found
clear and the token, or an error, comes in time.
-/

namespace Cubiboot
namespace Drives

open Words

/-- The transactions of `tsd_sd_read`. -/
def sdReadTransactions
    (e : SdEvents) (card : SdCard) (fuel : Nat) (addressingBlock : Bool) (addr len : Nat)
    (s : SdState) (data : Bytes) : Option Nat :=
  if tsdSelect e then
    (tsdReadLoop e card fuel addressingBlock addr len s data).map fun r =>
      r.2.2.2.transfers - s.transfers + (r.2.2.2.polls - s.polls)
  else
    some 0

/-- Every read ends after a number of transactions that depends on its count. -/
def SdReadsEnd (e : SdEvents) : Prop :=
  ∃ bound : Nat → Nat, ∀ card addressingBlock addr len s data,
    ∃ fuel r n, tsdSdRead e card fuel addressingBlock addr len s data = some r ∧
      sdReadTransactions e card fuel addressingBlock addr len s data = some n ∧
        n ≤ bound len

/-- Every start bit is found clear in time, if there is one to wait for. -/
def SdEvents.StartBitsClear (e : SdEvents) (k : Nat) : Prop :=
  e.native = true → ∀ n, ClearsWithin (e.startBit n) k

/-- A command sent at transfer `n` is accepted, after `j` bytes that are no response. -/
structure Accepted (e : SdEvents) (n j : Nat) : Prop where
  sent : e.succeeds (n + 1) = true
  early : j < 17
  waits : ∀ i < j, e.succeeds (n + 2 + i) = true ∧ e.reply (n + 2 + i) &&& 0x80 ≠ 0
  answered : e.succeeds (n + 2 + j) = true
  accepted : e.reply (n + 2 + j) = 0

/-- From transfer `n` on the token comes, or an error, in `k` bytes. -/
def TokenWithin (e : SdEvents) (k n : Nat) : Prop :=
  ∃ i < k, e.succeeds (n + i) = false ∨ e.reply (n + i) = 0xFE

theorem TokenWithin.mono {e : SdEvents} {k k' n : Nat} (h : TokenWithin e k n) (hle : k ≤ k') :
    TokenWithin e k' n := by
  obtain ⟨i, hi, hat⟩ := h
  exact ⟨i, Nat.lt_of_lt_of_le hi hle, hat⟩

/-- After every command that is accepted. -/
def TokensWithin (e : SdEvents) (k : Nat) : Prop :=
  ∀ n j, Accepted e n j → TokenWithin e k (n + 3 + j)

/-- What has been spent on some transfers, of at most a block each. -/
structure SdSpent (fuel transfers : Nat) (s s' : SdState) : Prop where
  least : s.transfers ≤ s'.transfers
  most : s'.transfers ≤ s.transfers + transfers
  leastPolls : s.polls ≤ s'.polls
  mostPolls : s'.polls ≤ s.polls + transfers * (blockSize * fuel)

/-- The first start bit that was waited for has been found clear. -/
def FirstByteClears (e : SdEvents) (s s' : SdState) : Prop :=
  e.native = true → ClearsWithin (e.startBit s.bytes) (s'.polls - s.polls)

section Sd

variable {e : SdEvents} {card : SdCard} {fuel n m left : Nat} {s s' s'' : SdState}

theorem SdSpent.refl (s : SdState) : SdSpent fuel 0 s s :=
  ⟨Nat.le_refl _, Nat.le_refl _, Nat.le_refl _, Nat.le_add_right _ _⟩

theorem SdSpent.trans (h : SdSpent fuel n s s') (h' : SdSpent fuel m s' s'') :
    SdSpent fuel (n + m) s s'' := by
  obtain ⟨hleast, hmost, hleastPolls, hmostPolls⟩ := h
  obtain ⟨hleast', hmost', hleastPolls', hmostPolls'⟩ := h'
  have hsum : (n + m) * (blockSize * fuel) = n * (blockSize * fuel) + m * (blockSize * fuel) :=
    Nat.add_mul _ _ _
  exact ⟨by omega, by omega, by omega, by omega⟩

theorem SdSpent.mono (h : SdSpent fuel n s s') (hle : n ≤ m) : SdSpent fuel m s s' := by
  obtain ⟨hleast, hmost, hleastPolls, hmostPolls⟩ := h
  have hpolls : n * (blockSize * fuel) ≤ m * (blockSize * fuel) := Nat.mul_le_mul_right _ hle
  exact ⟨hleast, by omega, hleastPolls, by omega⟩

theorem FirstByteClears.later (h : FirstByteClears e s s') (hle : s'.polls ≤ s''.polls) :
    FirstByteClears e s s'' :=
  fun hnative => (h hnative).mono (by omega)

theorem Transferred.spent
    {len : Nat} {ok : Bool} (h : Transferred e fuel len s ok s') (hlen : len ≤ blockSize) :
    SdSpent fuel 1 s s' := by
  have htransfers := h.transfers
  have hsize : len * fuel ≤ blockSize * fuel := Nat.mul_le_mul_right _ hlen
  have hmost := h.most
  exact ⟨by omega, by omega, h.least, by omega⟩

theorem nativeBytes_first {len : Nat} (h : nativeBytes e fuel (len + 1) s = some s') :
    ClearsWithin (e.startBit s.bytes) (s'.polls - s.polls) := by
  simp only [nativeBytes, Option.bind_eq_bind, Option.bind_eq_some_iff] at h
  obtain ⟨s₁, hfirst, hrest⟩ := h
  obtain ⟨polls, hpolls, rfl⟩ := Option.map_eq_some_iff.1 hfirst
  have hleast := (nativeBytes_some hrest).least
  simp only at hleast
  exact (clearsWithin_of_await hpolls).mono (by omega)

theorem tsdTransfer_first {n : Nat} {ok : Bool}
    (h : tsdTransfer e fuel (n + 1) s = some (ok, s')) : FirstByteClears e s s' := by
  intro hnative
  rw [tsdTransfer, if_pos hnative] at h
  obtain ⟨s₁, hbytes, hr⟩ := Option.map_eq_some_iff.1 h
  have hfirst := nativeBytes_first hbytes
  cases hr
  exact hfirst

theorem nativeBytes_total
    (h : ∀ n, ClearsWithin (e.startBit n) fuel) (len : Nat) (s : SdState) :
    ∃ s', nativeBytes e fuel len s = some s' := by
  induction len generalizing s with
  | zero =>
      exact ⟨s, rfl⟩
  | succ len ih =>
      obtain ⟨polls, hpolls⟩ := (h s.bytes).awaitStartBit
      simp only [nativeBytes, nativeExiImmRw, hpolls, Option.map_some, Option.bind_eq_bind,
        Option.bind_some]
      exact ih _

theorem tsdTransfer_total (h : e.StartBitsClear fuel) (len : Nat) (s : SdState) :
    ∃ ok s', tsdTransfer e fuel len s = some (ok, s') := by
  rw [tsdTransfer]
  split
  · rename_i hnative
    obtain ⟨s₁, hbytes⟩ := nativeBytes_total (h hnative) len s
    rw [hbytes]
    exact ⟨_, _, rfl⟩
  · exact ⟨_, _, rfl⟩

theorem tsdReadByte_total (h : e.StartBitsClear fuel) (s : SdState) :
    ∃ ok b s', tsdReadByte e fuel s = some (ok, b, s') := by
  obtain ⟨ok, s₁, htransfer⟩ := tsdTransfer_total h 1 s
  rw [tsdReadByte, htransfer]
  exact ⟨_, _, _, rfl⟩

theorem tsdReadByte_spent {ok : Bool} {b : UInt8}
    (h : tsdReadByte e fuel s = some (ok, b, s')) : SdSpent fuel 1 s s' :=
  (tsdReadByte_some h).2.spent (by decide)

theorem tsdAwaitToken_spent {ok : Bool} (h : tsdAwaitToken e fuel left s = some (ok, s')) :
    SdSpent fuel left s s' := by
  induction left generalizing s with
  | zero =>
      cases h
  | succ left ih =>
      simp only [tsdAwaitToken, Option.bind_eq_bind, Option.bind_eq_some_iff] at h
      obtain ⟨⟨ok', b, s₁⟩, hread, hrest⟩ := h
      have hspent := tsdReadByte_spent hread
      split at hrest
      · cases hrest
        exact hspent.mono (by omega)
      · split at hrest
        · exact (hspent.trans (ih hrest)).mono (by omega)
        · cases hrest
          exact hspent.mono (by omega)

theorem tsdAwaitToken_within
    (hclear : e.StartBitsClear fuel) (h : TokenWithin e left s.transfers) :
    ∃ ok s', tsdAwaitToken e fuel left s = some (ok, s') := by
  induction left generalizing s with
  | zero =>
      obtain ⟨i, hi, _⟩ := h
      exact absurd hi (Nat.not_lt_zero i)
  | succ left ih =>
      obtain ⟨i, hi, hend⟩ := h
      obtain ⟨ok, b, s₁, hread⟩ := tsdReadByte_total hclear s
      obtain ⟨hb, htransferred⟩ := tsdReadByte_some hread
      simp only [tsdAwaitToken, hread, Option.bind_eq_bind, Option.bind_some]
      by_cases hfails : ok = false
      · rw [if_pos hfails]
        exact ⟨_, _, rfl⟩
      · rw [if_neg hfails]
        by_cases htoken : b = 0xFE
        · rw [if_neg (not_not_intro htoken)]
          exact ⟨_, _, rfl⟩
        · rw [if_pos htoken]
          have hlater : i ≠ 0 := by
            rintro rfl
            rw [Nat.add_zero, ← htransferred.result, ← hb] at hend
            exact hend.elim hfails htoken
          have hindex : s₁.transfers + (i - 1) = s.transfers + i := by
            rw [htransferred.transfers]
            omega
          exact ih ⟨i - 1, by omega, by rw [hindex]; exact hend⟩

/-- The loop for the token is left with the token or an error. -/
theorem tsdAwaitToken_ends {ok : Bool} (h : tsdAwaitToken e fuel left s = some (ok, s')) :
    ∃ i, s'.transfers = s.transfers + i + 1 ∧
      (e.succeeds (s.transfers + i) = false ∨ e.reply (s.transfers + i) = 0xFE) := by
  induction left generalizing s with
  | zero =>
      cases h
  | succ left ih =>
      simp only [tsdAwaitToken, Option.bind_eq_bind, Option.bind_eq_some_iff] at h
      obtain ⟨⟨ok', b, s₁⟩, hread, hrest⟩ := h
      obtain ⟨hb, htransferred⟩ := tsdReadByte_some hread
      have hnext := htransferred.transfers
      split at hrest
      · rename_i hfails
        cases hrest
        exact ⟨0, hnext, Or.inl (htransferred.result.symm.trans hfails)⟩
      · split at hrest
        · obtain ⟨i, hend, hat⟩ := ih hrest
          have hindex : s₁.transfers + i = s.transfers + (i + 1) := by omega
          rw [hindex] at hend hat
          exact ⟨i + 1, hend, hat⟩
        · rename_i htoken
          cases hrest
          exact ⟨0, hnext, Or.inr (hb.symm.trans (not_not.1 htoken))⟩

theorem tsdAwaitResponse_spent {resp : Option UInt8}
    (h : tsdAwaitResponse e fuel left s = some (resp, s')) : SdSpent fuel left s s' := by
  induction left generalizing s with
  | zero =>
      cases h
      exact SdSpent.refl _
  | succ left ih =>
      simp only [tsdAwaitResponse, Option.bind_eq_bind, Option.bind_eq_some_iff] at h
      obtain ⟨⟨ok, b, s₁⟩, hread, hrest⟩ := h
      have hspent := tsdReadByte_spent hread
      split at hrest
      · cases hrest
        exact hspent.mono (by omega)
      · split at hrest
        · exact (hspent.trans (ih hrest)).mono (by omega)
        · cases hrest
          exact hspent.mono (by omega)

theorem tsdAwaitResponse_total (h : e.StartBitsClear fuel) (left : Nat) (s : SdState) :
    ∃ resp s', tsdAwaitResponse e fuel left s = some (resp, s') := by
  induction left generalizing s with
  | zero =>
      exact ⟨none, s, rfl⟩
  | succ left ih =>
      obtain ⟨ok, b, s₁, hread⟩ := tsdReadByte_total h s
      simp only [tsdAwaitResponse, hread, Option.bind_eq_bind, Option.bind_some]
      split
      · exact ⟨_, _, rfl⟩
      · split
        · exact ih s₁
        · exact ⟨_, _, rfl⟩

/-- A response that is read is the first byte that can be one. -/
theorem tsdAwaitResponse_reads {resp : UInt8}
    (h : tsdAwaitResponse e fuel left s = some (some resp, s')) :
    ∃ j < left,
      (∀ i < j, e.succeeds (s.transfers + i) = true ∧
        e.reply (s.transfers + i) &&& 0x80 ≠ 0) ∧
        e.succeeds (s.transfers + j) = true ∧ e.reply (s.transfers + j) = resp ∧
          s'.transfers = s.transfers + j + 1 := by
  induction left generalizing s with
  | zero =>
      cases h
  | succ left ih =>
      simp only [tsdAwaitResponse, Option.bind_eq_bind, Option.bind_eq_some_iff] at h
      obtain ⟨⟨ok, b, s₁⟩, hread, hrest⟩ := h
      obtain ⟨hb, htransferred⟩ := tsdReadByte_some hread
      have hnext := htransferred.transfers
      split at hrest
      · cases hrest
      · rename_i hok
        have hsucceeds : e.succeeds s.transfers = true := by
          rw [← htransferred.result]
          exact Bool.not_eq_false _ ▸ hok
        split at hrest
        · rename_i hbusy
          obtain ⟨j, hj, hbefore, hsent, hresp, hend⟩ := ih hrest
          have hindex : ∀ i, s₁.transfers + i = s.transfers + (i + 1) := fun i => by omega
          simp only [hindex] at hbefore hsent hresp hend
          refine ⟨j + 1, by omega, fun i hi => ?_, hsent, hresp, hend⟩
          cases i with
          | zero => exact ⟨hsucceeds, hb ▸ hbusy⟩
          | succ i => exact hbefore i (by omega)
        · cases hrest
          exact ⟨0, by omega, fun i hi => absurd hi (Nat.not_lt_zero i), hsucceeds, hb.symm,
            hnext⟩

/-- A response that a card is bound to give is read. -/
theorem tsdAwaitResponse_of {j : Nat} {resp : Option UInt8} (hj : j < left)
    (hbefore : ∀ i < j, e.succeeds (s.transfers + i) = true ∧
      e.reply (s.transfers + i) &&& 0x80 ≠ 0)
    (hok : e.succeeds (s.transfers + j) = true) (hresp : e.reply (s.transfers + j) = 0)
    (h : tsdAwaitResponse e fuel left s = some (resp, s')) :
    resp = some 0 ∧ s'.transfers = s.transfers + j + 1 := by
  induction left generalizing j s with
  | zero =>
      exact absurd hj (Nat.not_lt_zero j)
  | succ left ih =>
      simp only [tsdAwaitResponse, Option.bind_eq_bind, Option.bind_eq_some_iff] at h
      obtain ⟨⟨ok, b, s₁⟩, hread, hrest⟩ := h
      obtain ⟨hb, htransferred⟩ := tsdReadByte_some hread
      have hnext := htransferred.transfers
      have hresult := htransferred.result
      have hyes : ¬ true = false := by decide
      simp only at hrest
      cases j with
      | zero =>
          have hready : ¬ (0 : UInt8) &&& 0x80 ≠ 0 := by decide
          rw [Nat.add_zero] at hok hresp
          rw [hresult, hok, hb, hresp, if_neg hyes, if_neg hready] at hrest
          cases hrest
          exact ⟨rfl, hnext⟩
      | succ j =>
          obtain ⟨hfirst, hbusy⟩ := hbefore 0 (by omega)
          rw [Nat.add_zero] at hfirst hbusy
          rw [hresult, hfirst, hb, if_neg hyes, if_pos hbusy] at hrest
          have hindex : ∀ i, s.transfers + (i + 1) = s₁.transfers + i := fun i => by omega
          rw [hindex] at hok hresp ⊢
          exact ih (by omega) (fun i hi => by
            rw [← hindex]
            exact hbefore (i + 1) (by omega)) hok hresp hrest

theorem receive_counted (card : SdCard) (frame : List Nat) (s : SdState) :
    (card.receive frame s).transfers = s.transfers ∧
      (card.receive frame s).polls = s.polls := by
  simp only [SdCard.receive]
  split
  · split
    · exact ⟨rfl, rfl⟩
    · exact ⟨rfl, rfl⟩
  · exact ⟨rfl, rfl⟩

theorem tsdWriteFrame_some {frame : List Nat} {ok : Bool} (hlen : frame.length ≤ blockSize)
    (h : tsdWriteFrame e card fuel frame s = some (ok, s')) :
    ok = e.succeeds s.transfers ∧ s'.transfers = s.transfers + 1 ∧ SdSpent fuel 1 s s' := by
  obtain ⟨⟨ok', s₁⟩, htransfer, hr⟩ := Option.map_eq_some_iff.1 h
  have htransferred := tsdTransfer_some htransfer
  have hspent := htransferred.spent hlen
  obtain ⟨hkept, hkeptPolls⟩ := receive_counted card frame s₁
  cases hr
  refine ⟨htransferred.result, ?_, ?_⟩
  · simp only
    split
    · exact hkept.trans htransferred.transfers
    · exact htransferred.transfers
  · simp only
    split
    · obtain ⟨hleast, hmost, hleastPolls, hmostPolls⟩ := hspent
      exact ⟨by omega, by omega, by omega, by omega⟩
    · exact hspent

theorem tsdWriteFrame_total (h : e.StartBitsClear fuel) (card : SdCard) (frame : List Nat)
    (s : SdState) : ∃ ok s', tsdWriteFrame e card fuel frame s = some (ok, s') := by
  obtain ⟨ok, s₁, htransfer⟩ := tsdTransfer_total h frame.length s
  rw [tsdWriteFrame, htransfer]
  exact ⟨_, _, rfl⟩

theorem sdFrame_length (cmd arg : Nat) : (sdFrame cmd arg).length ≤ blockSize := by
  show 6 ≤ 512
  decide

/-- A command and the bytes up to its response: nothing else is transferred. -/
theorem tsdSendCmd_spent {cmd arg : Nat} {resp : Option UInt8}
    (h : tsdSendCmd e card fuel cmd arg s = some (resp, s')) :
    SdSpent fuel 19 s s' ∧ FirstByteClears e s s' := by
  simp only [tsdSendCmd, Option.bind_eq_bind, Option.bind_eq_some_iff] at h
  obtain ⟨⟨_, s₁⟩, hdummy, ⟨ok, s₂⟩, hsent, h⟩ := h
  have hfirst : FirstByteClears e s s₁ := tsdTransfer_first (n := 99) hdummy
  have hstart := (tsdTransfer_some hdummy).spent (by decide)
  obtain ⟨_, _, hframe⟩ := tsdWriteFrame_some (sdFrame_length cmd arg) hsent
  split at h
  · cases h
    exact ⟨(hstart.trans hframe).mono (by omega), hfirst.later hframe.leastPolls⟩
  · have hresponse := hframe.trans (tsdAwaitResponse_spent h)
    exact ⟨(hstart.trans hresponse).mono (by omega), hfirst.later hresponse.leastPolls⟩

theorem tsdSendCmd_total
    (h : e.StartBitsClear fuel) (card : SdCard) (cmd arg : Nat) (s : SdState) :
    ∃ resp s', tsdSendCmd e card fuel cmd arg s = some (resp, s') := by
  obtain ⟨_, s₁, hdummy⟩ := tsdTransfer_total h 100 s
  obtain ⟨ok, s₂, hsent⟩ := tsdWriteFrame_total h card (sdFrame cmd arg) s₁
  simp only [tsdSendCmd, tsdReadDummy, hdummy, hsent, Option.bind_eq_bind, Option.bind_some]
  split
  · exact ⟨_, _, rfl⟩
  · exact tsdAwaitResponse_total h 17 s₂

theorem tsdSendCmd_accepted {cmd arg : Nat}
    (h : tsdSendCmd e card fuel cmd arg s = some (some 0, s')) :
    ∃ j, Accepted e s.transfers j ∧ s'.transfers = s.transfers + 3 + j := by
  simp only [tsdSendCmd, Option.bind_eq_bind, Option.bind_eq_some_iff] at h
  obtain ⟨⟨_, s₁⟩, hdummy, ⟨ok, s₂⟩, hsent, h⟩ := h
  have hstart := (tsdTransfer_some hdummy).transfers
  obtain ⟨hok, hnext, _⟩ := tsdWriteFrame_some (sdFrame_length cmd arg) hsent
  simp only at hok hnext
  split at h
  · cases h
  · rename_i hyes
    obtain ⟨j, hj, hbefore, hanswered, hresp, hend⟩ := tsdAwaitResponse_reads h
    have hindex : ∀ i, s₂.transfers + i = s.transfers + 2 + i := fun i => by omega
    simp only [hindex] at hbefore hanswered hresp hend
    refine ⟨j, ⟨?_, hj, hbefore, hanswered, hresp⟩, by omega⟩
    rw [← hstart, ← hok]
    exact Bool.not_eq_false _ ▸ hyes

theorem Accepted.tsdSendCmd {cmd arg j : Nat} {resp : Option UInt8}
    (h : Accepted e s.transfers j)
    (hr : tsdSendCmd e card fuel cmd arg s = some (resp, s')) :
    resp = some 0 ∧ s'.transfers = s.transfers + 3 + j := by
  simp only [Drives.tsdSendCmd, Option.bind_eq_bind, Option.bind_eq_some_iff] at hr
  obtain ⟨⟨_, s₁⟩, hdummy, ⟨ok, s₂⟩, hsent, hr⟩ := hr
  have hstart := (tsdTransfer_some hdummy).transfers
  obtain ⟨hok, hnext, _⟩ := tsdWriteFrame_some (sdFrame_length cmd arg) hsent
  simp only at hok hnext
  have hyes : ¬ true = false := by decide
  rw [hstart, h.sent] at hok
  simp only [hok, if_neg hyes] at hr
  have hindex : ∀ i, s.transfers + 2 + i = s₂.transfers + i := fun i => by omega
  have hwaits := h.waits
  have hanswered := h.answered
  have haccepted := h.accepted
  simp only [hindex] at hwaits hanswered haccepted
  obtain ⟨hresp, hend⟩ := tsdAwaitResponse_of h.early hwaits hanswered haccepted hr
  exact ⟨hresp, by omega⟩

theorem tsdReadBlock_some {ok : Bool} {block : Bytes}
    (h : tsdReadBlock e card fuel s = some (ok, block, s')) : SdSpent fuel 1 s s' := by
  obtain ⟨⟨ok', s₁⟩, htransfer, hr⟩ := Option.map_eq_some_iff.1 h
  cases hr
  exact (tsdTransfer_some htransfer).spent (Nat.le_refl _)

theorem tsdRecvData_spent {got : Option Bytes}
    (h : tsdRecvData e card fuel s = some (got, s')) : SdSpent fuel (fuel + 2) s s' := by
  simp only [tsdRecvData, Option.bind_eq_bind, Option.bind_eq_some_iff] at h
  obtain ⟨⟨ok, s₁⟩, htoken, h⟩ := h
  have hstart := tsdAwaitToken_spent htoken
  split at h
  · cases h
    exact hstart.mono (by omega)
  · simp only [Option.bind_eq_some_iff] at h
    obtain ⟨⟨ok', block, s₂⟩, hdata, h⟩ := h
    have hblock := hstart.trans (tsdReadBlock_some hdata)
    split at h
    · cases h
      exact hblock.mono (by omega)
    · simp only [Option.bind_eq_some_iff, Option.some.injEq, Prod.mk.injEq] at h
      obtain ⟨⟨ok'', s₃⟩, hcrc, _, rfl⟩ := h
      exact hblock.trans ((tsdTransfer_some hcrc).spent (by decide))

theorem tsdRecvData_within
    (hclear : e.StartBitsClear fuel) (card : SdCard) (h : TokenWithin e fuel s.transfers) :
    ∃ got s', tsdRecvData e card fuel s = some (got, s') := by
  obtain ⟨ok, s₁, htoken⟩ := tsdAwaitToken_within hclear h
  obtain ⟨ok', s₂, hblock⟩ := tsdTransfer_total hclear blockSize s₁
  obtain ⟨ok'', s₃, hcrc⟩ := tsdTransfer_total hclear 2 s₂
  simp only [tsdRecvData, htoken, Option.bind_eq_bind, Option.bind_some]
  split
  · exact ⟨_, _, rfl⟩
  · simp only [tsdReadBlock, hblock, Option.map_some, Option.bind_some]
    split
    · exact ⟨_, _, rfl⟩
    · simp only [tsdReadDummy, hcrc, Option.bind_some]
      exact ⟨_, _, rfl⟩

/-- Data that come at all come after the token, or an error in its place. -/
theorem tsdRecvData_ends {got : Option Bytes}
    (h : tsdRecvData e card fuel s = some (got, s')) :
    ∃ i, s.transfers + i + 1 ≤ s'.transfers ∧
      (e.succeeds (s.transfers + i) = false ∨ e.reply (s.transfers + i) = 0xFE) := by
  simp only [tsdRecvData, Option.bind_eq_bind, Option.bind_eq_some_iff] at h
  obtain ⟨⟨ok, s₁⟩, htoken, h⟩ := h
  obtain ⟨i, hend, hat⟩ := tsdAwaitToken_ends htoken
  simp only at h
  split at h
  · cases h
    exact ⟨i, by omega, hat⟩
  · simp only [Option.bind_eq_some_iff] at h
    obtain ⟨⟨ok', block, s₂⟩, hdata, h⟩ := h
    have hblock := (tsdReadBlock_some hdata).least
    simp only at h
    split at h
    · cases h
      exact ⟨i, by omega, hat⟩
    · simp only [Option.bind_eq_some_iff, Option.some.injEq, Prod.mk.injEq] at h
      obtain ⟨⟨ok'', s₃⟩, hcrc, _, rfl⟩ := h
      have hlast := (tsdTransfer_some hcrc).transfers
      exact ⟨i, by simp only at hlast ⊢; omega, hat⟩

/-- What a block costs. -/
theorem tsdReadOne_spent {addressingBlock : Bool} {i : Nat} {got : Option Bytes}
    {t t' : Nat × SdState}
    (h : tsdReadOne e card fuel addressingBlock i t = some (got, t')) :
    SdSpent fuel (fuel + 21) t.2 t'.2 ∧ FirstByteClears e t.2 t'.2 := by
  simp only [tsdReadOne, Option.bind_eq_bind, Option.bind_eq_some_iff] at h
  obtain ⟨⟨resp, sd⟩, hsend, h⟩ := h
  obtain ⟨hspent, hfirst⟩ := tsdSendCmd_spent hsend
  split at h
  · simp only [Option.bind_eq_some_iff] at h
    obtain ⟨⟨got', sd'⟩, hdata, hr⟩ := h
    have hmore := tsdRecvData_spent hdata
    cases hr
    exact ⟨(hspent.trans hmore).mono (by omega), hfirst.later hmore.leastPolls⟩
  · cases h
    exact ⟨hspent.mono (by omega), hfirst⟩

/-- A block ends on a card that sends its tokens. -/
theorem tsdReadOne_total
    (hclear : e.StartBitsClear fuel) (card : SdCard) (h : TokensWithin e fuel)
    (addressingBlock : Bool) (i : Nat) (t : Nat × SdState) :
    ∃ got t', tsdReadOne e card fuel addressingBlock i t = some (got, t') := by
  obtain ⟨resp, sd, hsend⟩ := tsdSendCmd_total hclear card readSingleBlock t.1 t.2
  simp only [tsdReadOne, hsend, Option.bind_eq_bind, Option.bind_some]
  split
  · rename_i hresp
    rw [hresp] at hsend
    obtain ⟨j, haccepted, hstart⟩ := tsdSendCmd_accepted hsend
    have htoken := h t.2.transfers j haccepted
    rw [← hstart] at htoken
    obtain ⟨got, sd', hdata⟩ := tsdRecvData_within hclear card htoken
    rw [hdata]
    exact ⟨_, _, rfl⟩
  · exact ⟨_, _, rfl⟩

/-- The first block of a read of a card that accepts the command. -/
theorem tsdReadOne_ends {addressingBlock : Bool} {i j : Nat} {got : Option Bytes}
    {t t' : Nat × SdState} (h : Accepted e t.2.transfers j)
    (hone : tsdReadOne e card fuel addressingBlock i t = some (got, t')) :
    TokenWithin e (t'.2.transfers - t.2.transfers) (t.2.transfers + 3 + j) := by
  simp only [tsdReadOne, Option.bind_eq_bind, Option.bind_eq_some_iff] at hone
  obtain ⟨⟨resp, sd⟩, hsend, hrest⟩ := hone
  obtain ⟨hresp, hstart⟩ := h.tsdSendCmd hsend
  rw [if_pos hresp] at hrest
  obtain ⟨⟨got', sd'⟩, hdata, hr⟩ := Option.bind_eq_some_iff.1 hrest
  obtain ⟨i, hend, hat⟩ := tsdRecvData_ends hdata
  simp only at hend hat
  rw [hstart] at hend hat
  cases hr
  exact ⟨i, by simp only; omega, hat⟩

theorem sdReadsEnd_of_tokens
    (h : tsdSelect e = true → (∃ k, e.StartBitsClear k) ∧ ∃ k, TokensWithin e k) :
    SdReadsEnd e := by
  cases hselect : tsdSelect e with
  | false =>
      refine ⟨fun _ => 0, fun card addressingBlock addr len s data =>
        ⟨0, (false, data), 0, ?_, ?_, Nat.le_refl 0⟩⟩
      · simp [tsdSdRead, hselect]
      · simp [sdReadTransactions, hselect]
  | true =>
      obtain ⟨⟨k, hclears⟩, k', htokens⟩ := h hselect
      obtain ⟨fuel, hfuel⟩ : ∃ fuel, fuel = max k k' := ⟨_, rfl⟩
      have hclear : e.StartBitsClear fuel :=
        fun hnative n => (hclears hnative n).mono (by omega)
      have htoken : TokensWithin e fuel :=
        fun n j haccepted => (htokens n j haccepted).mono (by omega)
      refine ⟨fun len => len * (fuel + 21) + len * (fuel + 21) * (blockSize * fuel),
        fun card addressingBlock addr len s data => ?_⟩
      have hone : ∀ i (t : Nat × SdState), ∃ got t',
          tsdReadOne e card fuel addressingBlock i t = some (got, t') ∧
            SdSpent fuel (fuel + 21) t.2 t'.2 := by
        intro i t
        obtain ⟨got, t', hread⟩ := tsdReadOne_total hclear card htoken addressingBlock i t
        exact ⟨got, t', hread, (tsdReadOne_spent hread).1⟩
      obtain ⟨ok, out, t', hloop, hspent⟩ := eachBlock_within
        (fun n (t t' : Nat × SdState) => SdSpent fuel n t.2 t'.2) (fun t => SdSpent.refl t.2)
        SdSpent.trans SdSpent.mono hone len 0
        (if addressingBlock then addr else word (addr * 512), s) data
      refine ⟨fuel, (ok, out), t'.2.transfers - s.transfers + (t'.2.polls - s.polls), ?_, ?_,
        Nat.add_le_add (Nat.sub_le_iff_le_add'.2 hspent.most)
          (Nat.sub_le_iff_le_add'.2 hspent.mostPolls)⟩
      · simp only [tsdSdRead, tsdReadLoop, hselect, if_true, hloop, Option.map_some]
      · simp only [sdReadTransactions, tsdReadLoop, hselect, if_true, hloop, Option.map_some]

/-- A read of one block that ends, in terms of that block. -/
theorem sdReadTransactions_single {addr spent : Nat} {data : Bytes}
    (hselect : tsdSelect e = true)
    (h : sdReadTransactions e card fuel true addr 1 s data = some spent) :
    ∃ got t', tsdReadOne e card fuel true 0 (addr, s) = some (got, t') ∧
      spent = t'.2.transfers - s.transfers + (t'.2.polls - s.polls) := by
  rw [sdReadTransactions, if_pos hselect] at h
  obtain ⟨⟨ok, out, t'⟩, hloop, rfl⟩ := Option.map_eq_some_iff.1 h
  obtain ⟨got, hone⟩ := eachBlock_single hloop
  exact ⟨got, t', hone, rfl⟩

theorem tokens_of_sdReadsEnd (h : SdReadsEnd e) (hselect : tsdSelect e = true) :
    (∃ k, e.StartBitsClear k) ∧ ∃ k, TokensWithin e k := by
  obtain ⟨bound, hends⟩ := h
  constructor
  · refine ⟨bound 1, fun hnative n => ?_⟩
    obtain ⟨fuel, r, spent, _, hspent, hle⟩ :=
      hends ⟨true, fun _ => 0⟩ true 0 1 ⟨0, none, n, 0⟩ fun _ => 0
    obtain ⟨got, t', hone, hsum⟩ := sdReadTransactions_single hselect hspent
    refine ((tsdReadOne_spent hone).2 hnative).mono ?_
    simp only at hsum ⊢
    omega
  · refine ⟨bound 1, fun n j haccepted => ?_⟩
    obtain ⟨fuel, r, spent, _, hspent, hle⟩ :=
      hends ⟨true, fun _ => 0⟩ true 0 1 ⟨n, none, 0, 0⟩ fun _ => 0
    obtain ⟨got, t', hone, hsum⟩ := sdReadTransactions_single hselect hspent
    refine (tsdReadOne_ends (t := (0, ⟨n, none, 0, 0⟩)) haccepted hone).mono ?_
    simp only at hsum ⊢
    omega

end Sd

end Drives
end Cubiboot
