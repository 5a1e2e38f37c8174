import Cubiboot.Foundations.CopyRange
import Cubiboot.Foundations.FuelLoop

/-!
# Reads of any alignment

`dvd_read_data` of `flippy_sync.c`, which is in the menu and in the loader in the
same words.  Where the destination, the length or the offset is not aligned the
bytes go through a staging buffer of 16 KiB.

The bytes of `staging` past the end of the buffer are those that follow it in
memory.  `copies` notes, for each pass, how much of the buffer was filled and
what was copied from it.

Results: `dvdReadData_total`, that every read returns; `exactRead_of_fits`, that a read
which fits what its passes ask for is exact, by an invariant of the passes;
`dvdReadData_exact_iff`, that no other is, and that both copies of the source agree on
it.
-/

namespace Cubiboot
namespace Disc

open CopyRange FuelLoop

/-- `FD_IPC_MAXRESP`. -/
abbrev fdIpcMaxresp : Nat := 1024 * 16

/-- What `dvd_read` is given to fill. -/
inductive ReadBuffer where
  | staging
  | memory (dst : Nat)

/-- The buffer is aligned to 32 bytes. -/
def ReadBuffer.Aligned : ReadBuffer → Prop
  | .staging => True
  | .memory dst => dst % 32 = 0

/-- The result of `dvd_read`, and what its buffer holds afterwards. -/
structure ReadReply where
  result : Int
  data : Nat → UInt8

/-- What `dvd_read` replies to each call, given the buffer, the length and the offset. -/
abbrev DvdRead := Nat → ReadBuffer → Nat → Nat → ReadReply

/-- An aligned read that succeeds delivers the bytes of the file it is asked for. -/
def Delivers (dvdRead : DvdRead) (file : Nat → UInt8) (size : Nat) : Prop :=
  ∀ (call : Nat) (buffer : ReadBuffer) (len offset : Nat),
    buffer.Aligned → offset % 4 = 0 → (dvdRead call buffer len offset).result = 0 →
      ∀ i < len, offset + i < size →
        (dvdRead call buffer len offset).data i = file (offset + i)

/-- One copy from the staging buffer. -/
structure StagedCopy where
  filled : Nat
  start : Nat
  count : Nat
deriving DecidableEq

/-- Memory, and the staging buffer. -/
structure ReadStore where
  memory : Nat → UInt8
  staging : Nat → UInt8
  copies : List StagedCopy

/-- The variables of the loop. -/
structure StagedState where
  store : ReadStore
  calls : Nat
  currentOffset : Nat
  totalRead : Nat
  remaining : Nat

/-- How much a pass asks for. -/
def stagedToRead (remaining offsetAdjustment : Nat) : Nat :=
  let toRead := if remaining > fdIpcMaxresp then fdIpcMaxresp else remaining
  let toRead :=
    if toRead + offsetAdjustment > fdIpcMaxresp then
      fdIpcMaxresp - offsetAdjustment
    else
      toRead
  (toRead + 31) / 32 * 32

/-- How much a pass copies. -/
def stagedToCopy (remaining : Nat) : Nat :=
  if remaining > fdIpcMaxresp then fdIpcMaxresp else remaining

/-- One pass of the loop through the staging buffer. -/
def stagedBody (dvdRead : DvdRead) (dst : Nat) (s : StagedState) :
    Option (StagedState ⊕ Int × ReadStore) :=
  if s.remaining > 0 then
    let alignedOffset := s.currentOffset / 4 * 4
    let offsetAdjustment := s.currentOffset - alignedOffset
    let toRead := stagedToRead s.remaining offsetAdjustment
    let reply := dvdRead s.calls .staging toRead alignedOffset
    let store := { s.store with staging := copyRange s.store.staging 0 toRead reply.data }
    if reply.result ≠ 0 then
      some (.inr (reply.result, store))
    else
      let toCopy := stagedToCopy s.remaining
      some
        (.inl
          { store :=
              { store with
                memory :=
                  copyRange store.memory (dst + s.totalRead) toCopy
                    fun i => store.staging (offsetAdjustment + i)
                copies := store.copies ++ [⟨toRead, offsetAdjustment, toCopy⟩] }
            calls := s.calls + 1
            currentOffset := s.currentOffset + toCopy
            totalRead := s.totalRead + toCopy
            remaining := s.remaining - toCopy })
  else
    some (.inr (0, s.store))

/-- `dvd_read_data`. -/
def dvdReadData
    (dvdRead : DvdRead) (dst len offset fuel : Nat) (memory staging : Nat → UInt8) :
    Option (Int × ReadStore) :=
  if dst % 32 ≠ 0 ∨ len % 32 ≠ 0 ∨ offset % 4 ≠ 0 then
    run (stagedBody dvdRead dst) fuel ⟨⟨memory, staging, []⟩, 0, offset, 0, len⟩
  else
    let reply := dvdRead 0 (.memory dst) len offset
    some (reply.result, ⟨copyRange memory dst len reply.data, staging, []⟩)

/-- `dvd_read_data` of the menu. -/
def patchesDvdReadData := dvdReadData

/-- `dvd_read_data` of the loader. -/
def cubebootDvdReadData := dvdReadData

/-- What a read should have done when it returns. -/
structure ExactRead
    (file memory : Nat → UInt8) (dst len offset : Nat) (r : Int × ReadStore) : Prop where
  bytes : r.1 = 0 → ∀ i < len, r.2.memory (dst + i) = file (offset + i)
  outside : ∀ a, a < dst ∨ dst + len ≤ a → r.2.memory a = memory a
  staged : ∀ copy ∈ r.2.copies, copy.start + copy.count ≤ copy.filled

/--
A version of `dvd_read_data` is exact for a destination, a length and an offset:
whatever the file, the drive and what memory and the buffer held before.
-/
def ReadsExactly
    (readData : DvdRead → Nat → Nat → Nat → Nat → (Nat → UInt8) → (Nat → UInt8) →
      Option (Int × ReadStore))
    (dst len offset : Nat) : Prop :=
  ∀ (dvdRead : DvdRead) (file : Nat → UInt8) (size : Nat) (memory staging : Nat → UInt8),
    Delivers dvdRead file size → offset + len ≤ size →
      ∃ fuel r, readData dvdRead dst len offset fuel memory staging = some r ∧
        ExactRead file memory dst len offset r

/--
The offset is aligned, or all the bytes are in what one pass asks for: rounding
the length up to 32 makes room for the bytes before the offset.
-/
def FitsStaging (len offset : Nat) : Prop :=
  offset % 4 = 0 ∨ len = 0 ∨
    len ≤ fdIpcMaxresp ∧ len % 32 ≠ 0 ∧ offset % 4 + len % 32 ≤ 32

instance (len offset : Nat) : Decidable (FitsStaging len offset) :=
  inferInstanceAs (Decidable (_ ∨ _ ∨ _))

variable {dvdRead : DvdRead} {file memory staging : Nat → UInt8}
variable {dst len offset size : Nat} {s : StagedState}

theorem offsetAdjustment_eq (n : Nat) : n - n / 4 * 4 = n % 4 := by
  omega

theorem stagedToCopy_le (remaining : Nat) :
    stagedToCopy remaining ≤ remaining ∧ stagedToCopy remaining ≤ fdIpcMaxresp := by
  simp only [stagedToCopy, fdIpcMaxresp]
  split <;> omega

/-- A pass with something left copies something. -/
theorem stagedToCopy_pos {remaining : Nat} (h : 0 < remaining) : 0 < stagedToCopy remaining := by
  simp only [stagedToCopy, fdIpcMaxresp]
  split <;> omega

/-- A pass has all the bytes it copies exactly when they fit what it asks for. -/
theorem staged_fits_iff
    {remaining : Nat} (hpos : 0 < remaining) (offset : Nat) :
    offset % 4 + stagedToCopy remaining ≤ stagedToRead remaining (offset % 4) ↔
      FitsStaging remaining offset := by
  simp only [stagedToCopy, stagedToRead, FitsStaging, fdIpcMaxresp]
  split <;> split <;> omega

/-- What is left after a pass that fits, fits as well. -/
theorem FitsStaging.next
    {remaining : Nat} (h : FitsStaging remaining offset) :
    FitsStaging (remaining - stagedToCopy remaining) (offset + stagedToCopy remaining) := by
  simp only [FitsStaging, stagedToCopy, fdIpcMaxresp] at *
  split <;> omega

/-- What holds between two passes of a read that fits. -/
structure StagedInv
    (file memory : Nat → UInt8) (dst len offset : Nat) (s : StagedState) : Prop where
  total : s.totalRead + s.remaining = len
  current : s.currentOffset = offset + s.totalRead
  fits : FitsStaging s.remaining s.currentOffset
  bytes : ∀ i < s.totalRead, s.store.memory (dst + i) = file (offset + i)
  outside : ∀ a, a < dst ∨ dst + len ≤ a → s.store.memory a = memory a
  staged : ∀ copy ∈ s.store.copies, copy.start + copy.count ≤ copy.filled

/-- A pass that fits fails without a copy, or delivers what it copies. -/
theorem stagedBody_inv
    (hread : Delivers dvdRead file size) (hsize : offset + len ≤ size)
    (h : StagedInv file memory dst len offset s) :
    (∃ r, stagedBody dvdRead dst s = some (.inr r) ∧
        ExactRead file memory dst len offset r) ∨
      ∃ s', stagedBody dvdRead dst s = some (.inl s') ∧
        StagedInv file memory dst len offset s' ∧ s'.remaining < s.remaining := by
  have htotal := h.total
  have hcurrent := h.current
  by_cases hpos : s.remaining > 0
  · obtain ⟨hle, hmax⟩ := stagedToCopy_le s.remaining
    have hcopy := stagedToCopy_pos hpos
    have hroom := (staged_fits_iff hpos s.currentOffset).2 h.fits
    simp only [stagedBody, if_pos hpos, offsetAdjustment_eq]
    obtain ⟨reply, hreply⟩ : ∃ reply, reply =
        dvdRead s.calls .staging (stagedToRead s.remaining (s.currentOffset % 4))
          (s.currentOffset / 4 * 4) := ⟨_, rfl⟩
    rw [← hreply]
    by_cases hresult : reply.result = 0
    · rw [if_neg (not_not_intro hresult)]
      refine Or.inr ⟨_, rfl, ⟨?_, ?_, h.fits.next, ?_, ?_, ?_⟩, ?_⟩
      · simp only
        omega
      · simp only
        omega
      · intro i hi
        simp only at hi ⊢
        by_cases hold : i < s.totalRead
        · rw [copyRange_outside (by omega)]
          exact h.bytes i hold
        · rw [copyRange_inside (by omega) (by omega),
            copyRange_inside (by omega) (by omega), hreply]
          have hbyte := hread s.calls .staging
            (stagedToRead s.remaining (s.currentOffset % 4)) (s.currentOffset / 4 * 4)
            trivial (by omega) (by rw [← hreply]; exact hresult)
            (s.currentOffset % 4 + (dst + i - (dst + s.totalRead)) - 0)
            (by omega) (by omega)
          rw [hbyte]
          congr 1
          omega
      · intro a ha
        simp only
        rw [copyRange_outside (by omega)]
        exact h.outside a ha
      · intro copy hmem
        simp only [List.mem_append, List.mem_singleton] at hmem
        rcases hmem with hold | rfl
        · exact h.staged copy hold
        · exact hroom
      · simp only
        omega
    · rw [if_pos hresult]
      refine Or.inl ⟨_, rfl, ?_, h.outside, h.staged⟩
      intro hzero
      exact absurd hzero hresult
  · have hdone : s.remaining = 0 := by omega
    simp only [stagedBody, if_neg hpos]
    refine Or.inl ⟨_, rfl, ?_, h.outside, h.staged⟩
    intro _ i hi
    exact h.bytes i (by omega)

/-- A read that fits is exact. -/
theorem readsExactly_of_fits
    (h : FitsStaging len offset) : ReadsExactly dvdReadData dst len offset := by
  intro dvdRead file size memory staging hread hsize
  simp only [dvdReadData]
  by_cases haligned : dst % 32 ≠ 0 ∨ len % 32 ≠ 0 ∨ offset % 4 ≠ 0
  · simp only [if_pos haligned]
    have hstart : StagedInv file memory dst len offset
        ⟨⟨memory, staging, []⟩, 0, offset, 0, len⟩ := by
      constructor
      · exact Nat.zero_add len
      · rfl
      · exact h
      · exact fun i hi => absurd hi (Nat.not_lt_zero i)
      · exact fun a _ => rfl
      · exact fun copy hmem => absurd hmem List.not_mem_nil
    obtain ⟨r, hrun, hexact⟩ := run_meets (StagedInv file memory dst len offset)
      (ExactRead file memory dst len offset) StagedState.remaining
      (fun _ hs => stagedBody_inv hread hsize hs) hstart (Nat.lt_succ_self len)
    exact ⟨_, r, hrun, hexact⟩
  · simp only [if_neg haligned]
    refine ⟨0, _, rfl, ?_, ?_, ?_⟩
    · intro hresult i hi
      simp only at hresult ⊢
      rw [copyRange_inside (by omega) (by omega),
        hread 0 (.memory dst) len offset (by simp only [ReadBuffer.Aligned]; omega)
          (by omega) hresult _ (by omega) (by omega)]
      congr 1
      omega
    · intro a ha
      exact copyRange_outside ha
    · exact fun copy hmem => absurd hmem List.not_mem_nil

/-- More fuel does not change a read. -/
theorem steady_dvdReadData (dvdRead : DvdRead) (dst len offset : Nat)
    (memory staging : Nat → UInt8) :
    Steady fun fuel => dvdReadData dvdRead dst len offset fuel memory staging := by
  simp only [dvdReadData]
  exact Steady.ite (steady_run _) (steady_const _)

/-- Every read returns, exact or not: each pass copies something. -/
theorem dvdReadData_total (dvdRead : DvdRead) (dst len offset : Nat)
    (memory staging : Nat → UInt8) :
    ∃ r, dvdReadData dvdRead dst len offset (len + 1) memory staging = some r := by
  simp only [dvdReadData]
  split
  · refine run_total (fun _ => True) StagedState.remaining ?_ trivial (Nat.lt_succ_self len)
    intro s _
    by_cases hpos : s.remaining > 0
    · obtain ⟨hle, _⟩ := stagedToCopy_le s.remaining
      have hcopy := stagedToCopy_pos hpos
      simp only [stagedBody, if_pos hpos]
      split
      · exact Or.inl ⟨_, rfl⟩
      · exact Or.inr ⟨_, rfl, trivial, by simp only; omega⟩
    · exact Or.inl ⟨(0, s.store), by simp only [stagedBody, if_neg hpos]⟩
  · exact ⟨_, rfl⟩

/-- Whatever a read that fits returns is exact. -/
theorem exactRead_of_fits
    (h : FitsStaging len offset) (hread : Delivers dvdRead file size)
    (hsize : offset + len ≤ size) {fuel : Nat} {r : Int × ReadStore}
    (hr : dvdReadData dvdRead dst len offset fuel memory staging = some r) :
    ExactRead file memory dst len offset r := by
  obtain ⟨_, r', hr', hexact⟩ :=
    readsExactly_of_fits h dvdRead file size memory staging hread hsize
  rw [(steady_dvdReadData dvdRead dst len offset memory staging).unique hr hr']
  exact hexact

/-- A drive that delivers every byte of a file. -/
def wholeFile (file : Nat → UInt8) : DvdRead :=
  fun _ _ _ offset => ⟨0, fun i => file (offset + i)⟩

theorem wholeFile_delivers
    (file : Nat → UInt8) (size : Nat) : Delivers (wholeFile file) file size :=
  fun _ _ _ _ _ _ _ _ _ _ => rfl

/-- Such a drive never fails. -/
theorem dvdReadData_wholeFile
    {fuel : Nat} {r : Int × ReadStore}
    (hr : dvdReadData (wholeFile file) dst len offset fuel memory staging = some r) :
    r.1 = 0 := by
  simp only [dvdReadData] at hr
  split at hr
  · refine run_sound (fun _ => True) (fun r : Int × ReadStore => r.1 = 0)
      (fun _ _ _ _ => trivial) ?_ trivial hr
    intro s r _ hstep
    simp only [stagedBody, wholeFile, ne_eq, not_true_eq_false, if_false] at hstep
    split at hstep
    · cases hstep
    · cases hstep
      rfl
  · cases hr
    rfl

/-- The first pass of a read that does not fit copies what it did not ask for. -/
theorem dvdReadData_overreads
    (h : ¬ FitsStaging len offset) {fuel : Nat} {r : Int × ReadStore}
    (hr : dvdReadData (wholeFile file) dst len offset fuel memory staging = some r) :
    ∃ copy ∈ r.2.copies, copy.filled < copy.start + copy.count := by
  have hoffset : offset % 4 ≠ 0 := fun hc => h (Or.inl hc)
  have hlen : 0 < len := by
    by_contra hc
    exact h (Or.inr (Or.inl (by omega)))
  simp only [dvdReadData, if_pos (Or.inr (Or.inr hoffset) :
    dst % 32 ≠ 0 ∨ len % 32 ≠ 0 ∨ offset % 4 ≠ 0)] at hr
  obtain ⟨start, hstart⟩ : ∃ start : StagedState,
      start = ⟨⟨memory, staging, []⟩, 0, offset, 0, len⟩ := ⟨_, rfl⟩
  rw [← hstart] at hr
  -- either the first pass is still to come, or its copy has been noted
  refine run_sound
    (fun s => s = start ∨
      ∃ copy ∈ s.store.copies, copy.filled < copy.start + copy.count)
    (fun r : Int × ReadStore =>
      ∃ copy ∈ r.2.copies, copy.filled < copy.start + copy.count)
    ?_ ?_ (Or.inl rfl) hr
  · intro s s' hs hstep
    right
    simp only [stagedBody, offsetAdjustment_eq] at hstep
    split at hstep
    · simp only [wholeFile, ne_eq, not_true_eq_false, if_false, Option.some.injEq,
        Sum.inl.injEq] at hstep
      subst hstep
      rcases hs with rfl | ⟨copy, hmem, hover⟩
      · refine ⟨_, List.mem_append_right _ (List.mem_singleton_self _), ?_⟩
        have hroom := staged_fits_iff hlen offset
        rw [hstart]
        simp only
        by_contra hc
        exact h (hroom.1 (by omega))
      · exact ⟨copy, List.mem_append_left _ hmem, hover⟩
    · cases hstep
  · intro s r hs hstep
    simp only [stagedBody] at hstep
    split at hstep
    · simp only [wholeFile, ne_eq, not_true_eq_false, if_false, Option.some.injEq,
        reduceCtorEq] at hstep
    · rename_i hdone
      simp only [Option.some.injEq, Sum.inr.injEq] at hstep
      subst hstep
      rcases hs with rfl | hover
      · rw [hstart] at hdone
        exact absurd hlen hdone
      · exact hover

theorem readsExactly_iff :
    ReadsExactly dvdReadData dst len offset ↔ FitsStaging len offset := by
  constructor
  · intro h
    by_contra hno
    obtain ⟨fuel, r, hr, hexact⟩ := h (wholeFile fun _ => 0) (fun _ => 0) (offset + len)
      (fun _ => 0) (fun _ => 0) (wholeFile_delivers _ _) (Nat.le_refl _)
    obtain ⟨copy, hmem, hover⟩ := dvdReadData_overreads hno hr
    have hstaged := hexact.staged copy hmem
    omega
  · exact readsExactly_of_fits

/--
Both versions are exact for the lengths and offsets whose bytes fit what a pass
asks for, and for no others.
-/
theorem dvdReadData_exact_iff (dst len offset : Nat) :
    (ReadsExactly patchesDvdReadData dst len offset ↔ FitsStaging len offset) ∧
      (ReadsExactly cubebootDvdReadData dst len offset ↔ FitsStaging len offset) :=
  ⟨readsExactly_iff, readsExactly_iff⟩

/--
32 bytes from offset 1: the last byte that arrives is the one that was in the
staging buffer.
-/
theorem dvdReadData_stale_byte :
    ∃ r, patchesDvdReadData (wholeFile fun _ => 1) 0x81200000 32 1 2
          (fun _ => 0) (fun _ => 0) = some r ∧
      r.1 = 0 ∧ r.2.memory 0x8120001F = 0 ∧ r.2.copies = [⟨32, 1, 32⟩] ∧
      ¬ ReadsExactly patchesDvdReadData 0x81200000 32 1 := by
  refine ⟨_, rfl, rfl, by decide, by decide, fun h => ?_⟩
  exact absurd (readsExactly_iff.1 h) (by decide)

end Disc
end Cubiboot
