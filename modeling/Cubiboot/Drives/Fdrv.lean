import Mathlib.Tactic.Cases

/-!
# The detection of a FlippyDrive

`fdrv_probe`: the drive on the disc interface is asked who it is, a drive that shows a
stock date is told to leave the bypass, and one in its bootloader to start the firmware.
What was found out is kept in `has_fdrv`; an answer that settles nothing must not be.

The inquiries of a run are numbered, and what the drive answers to each of them is
arbitrary.  An inquiry may also fail, and then leaves anything in `probe_info`.

Results: `fdrvLeaveBypass_spec`, `fdrvLeaveBootloader_spec` and
`fdrvAwaitFirmware_spec`, one for each part of the detection; `fdrvProbe_settled`, what
is settled at its end; and `fdrv_caches_certainties`, that a run of calls caches what
has been shown and keeps it.
-/

namespace Cubiboot
namespace Drives

/-- `flippy_version_parts_t`. -/
structure FlippyVersion where
  major : Nat
  minor : Nat
  build : Nat
deriving DecidableEq

/-- What is looked at in a `dvd_info_t`. -/
structure DvdInfo where
  relDate : Nat
  fwVer : FlippyVersion
deriving DecidableEq

/-- The result of `fdrv_inquiry`, and `probe_info` after it. -/
structure InquiryReply where
  ret : Nat
  info : DvdInfo
deriving DecidableEq

/-- `GCODE_REL_DATE`. -/
abbrev gcodeRelDate : Nat := 0x20196c64

/-- `FLIPPY_REL_DATE_BOOTLOADER`. -/
abbrev flippyRelDateBootloader : Nat := 0x20220420

/-- `FLIPPY_REL_DATE_FIRMWARE`. -/
abbrev flippyRelDateFirmware : Nat := 0x20220426

/-- `DVD_OEM_INQUIRY`. -/
abbrev dvdOemInquiry : Nat := 0x12000000

/-- `DVD_FLIPPY_BYPASS`. -/
abbrev dvdFlippyBypass : Nat := 0xDC000000

/-- `FD_BYPASS_EXIT_MAGIC0`. -/
abbrev fdBypassExitMagic0 : Nat := 0xE3F72BAB

/-- `FD_BYPASS_EXIT_MAGIC1`. -/
abbrev fdBypassExitMagic1 : Nat := 0x72648977

/-- `FLIPPY_BOOT_MAGIC0`. -/
abbrev flippyBootMagic0 : Nat := 0xabadbeef

/-- `FLIPPY_BOOT_MAGIC1`. -/
abbrev flippyBootMagic1 : Nat := 0xcafe6969

/-- `FLIPPY_NOUPDATE_MAGIC1`. -/
abbrev flippyNoupdateMagic1 : Nat := 0xdecaf420

/-- `FDRV_BOOT_ATTEMPTS`. -/
abbrev fdrvBootAttempts : Nat := 60

/-- `stock_rel_dates`. -/
def stockRelDates : List Nat :=
  [0x20010608, 0x20010831, 0x20020402, 0x20020823]

/-- `is_stock_rel_date`. -/
def isStockRelDate (relDate : Nat) : Bool :=
  stockRelDates.any fun stock => relDate == stock

/-- What is exchanged with the drive. -/
inductive DriveEvent where
  | inquiry (reply : InquiryReply)
  | command (cmd arg0 arg1 : Nat)
deriving DecidableEq

/-- The number of inquiries of the run so far, and what a call has exchanged. -/
structure DriveTalk where
  asked : Nat
  said : List DriveEvent

/-- `has_fdrv`, `fdrv_fw_ver`, and the number of inquiries so far. -/
structure FdrvState where
  hasFdrv : Int
  fwVer : FlippyVersion
  asked : Nat

/-- A call of `fdrv_probe`: its result, the state after it, and what was exchanged. -/
structure ProbeCall where
  found : Bool
  state : FdrvState
  said : List DriveEvent

/-- Before the first call. -/
def FdrvState.boot : FdrvState :=
  ⟨-1, ⟨0, 0, 0⟩, 0⟩

variable (replies : Nat → InquiryReply)

/-- `fdrv_inquiry`. -/
def fdrvInquiry (t : DriveTalk) : InquiryReply × DriveTalk :=
  (replies t.asked, ⟨t.asked + 1, t.said ++ [.inquiry (replies t.asked)]⟩)

/-- `fdrv_cmd`, whose result the probe does not look at. -/
def fdrvCmd (cmd arg0 arg1 : Nat) (t : DriveTalk) : DriveTalk :=
  { t with said := t.said ++ [.command cmd arg0 arg1] }

/-- The loop that waits for the firmware. -/
def fdrvAwaitFirmware : Nat → DriveTalk → Option DvdInfo × DriveTalk
  | 0, t => (none, t)
  | left + 1, t =>
      match fdrvInquiry replies t with
      | (reply, t) =>
          if reply.ret = 0 ∧ reply.info.relDate = flippyRelDateFirmware then
            (some reply.info, t)
          else
            fdrvAwaitFirmware left t

/-- The step out of the bypass: `none` is a return. -/
def fdrvLeaveBypass (info : DvdInfo) (t : DriveTalk) : Option DvdInfo × DriveTalk :=
  if isStockRelDate info.relDate then
    match fdrvInquiry replies
        (fdrvCmd dvdFlippyBypass fdBypassExitMagic0 fdBypassExitMagic1 t) with
    | (reply, t) => if reply.ret ≠ 0 then (none, t) else (some reply.info, t)
  else
    (some info, t)

/-- The step out of the bootloader: `none` is a return. -/
def fdrvLeaveBootloader (info : DvdInfo) (t : DriveTalk) : Option DvdInfo × DriveTalk :=
  if info.relDate = flippyRelDateBootloader then
    let t := fdrvCmd dvdOemInquiry flippyBootMagic0 flippyBootMagic1 t
    let t := fdrvCmd dvdOemInquiry flippyBootMagic0 flippyNoupdateMagic1 t
    fdrvAwaitFirmware replies fdrvBootAttempts t
  else
    (some info, t)

/-- The end of a call: `has_fdrv` and `fdrv_fw_ver` are written, or not. -/
def fdrvConclude (info : DvdInfo) (s : FdrvState) (t : DriveTalk) : ProbeCall :=
  if info.relDate = flippyRelDateFirmware then
    ⟨true, ⟨1, info.fwVer, t.asked⟩, t.said⟩
  else if isStockRelDate info.relDate then
    ⟨false, ⟨0, s.fwVer, t.asked⟩, t.said⟩
  else
    ⟨false, { s with asked := t.asked }, t.said⟩

/-- `fdrv_probe`. -/
def fdrvProbe (s : FdrvState) : ProbeCall :=
  if s.hasFdrv ≥ 0 then
    ⟨s.hasFdrv == 1, s, []⟩
  else
    match fdrvInquiry replies ⟨s.asked, []⟩ with
    | (reply, t) =>
        if reply.ret ≠ 0 then
          ⟨false, { s with asked := t.asked }, t.said⟩
        else if reply.info.relDate = gcodeRelDate then
          ⟨false, ⟨0, s.fwVer, t.asked⟩, t.said⟩
        else
          match fdrvLeaveBypass replies reply.info t with
          | (none, t) => ⟨false, { s with asked := t.asked }, t.said⟩
          | (some info, t) =>
              match fdrvLeaveBootloader replies info t with
              | (none, t) => ⟨false, { s with asked := t.asked }, t.said⟩
              | (some info, t) => fdrvConclude info s t

/-- The state after so many calls of `fdrv_probe`. -/
def fdrvProbes : Nat → FdrvState
  | 0 => .boot
  | n + 1 => (fdrvProbe replies (fdrvProbes n)).state

/-- The inquiry was answered with such a date. -/
def InquiryReply.Answers (reply : InquiryReply) (date : Nat → Prop) : Prop :=
  reply.ret = 0 ∧ date reply.info.relDate

/-- The last thing exchanged is an answer with the date of the firmware. -/
def FirmwareAnswered (said : List DriveEvent) : Prop :=
  ∃ before reply, said = before ++ [.inquiry reply] ∧
    reply.Answers (· = flippyRelDateFirmware)

/-- The first answer has the date of a GC Loader. -/
def LoaderOnFirstContact (said : List DriveEvent) : Prop :=
  ∃ reply, said = [.inquiry reply] ∧ reply.Answers (· = gcodeRelDate)

/-- The command to leave the bypass. -/
def bypassExit : DriveEvent :=
  .command dvdFlippyBypass fdBypassExitMagic0 fdBypassExitMagic1

/-- The drive has a stock date, and keeps it when it is told to leave the bypass. -/
def StockAfterBypass (said : List DriveEvent) : Prop :=
  ∃ first second, said = [.inquiry first, bypassExit, .inquiry second] ∧
    first.Answers (isStockRelDate · = true) ∧ second.Answers (isStockRelDate · = true)

/-- The drive is not, or not a FlippyDrive, for certain. -/
def AbsenceShown (said : List DriveEvent) : Prop :=
  LoaderOnFirstContact said ∨ StockAfterBypass said

variable {replies : Nat → InquiryReply} {s : FdrvState} {t t' : DriveTalk} {info : DvdInfo}
variable {before said : List DriveEvent} {reply : InquiryReply}

theorem firmwareAnswered_snoc :
    FirmwareAnswered (before ++ [.inquiry reply]) ↔
      reply.Answers (· = flippyRelDateFirmware) := by
  constructor
  · rintro ⟨before', reply', heq, hanswer⟩
    obtain ⟨-, hlast⟩ := List.append_inj' heq rfl
    cases hlast
    exact hanswer
  · intro hanswer
    exact ⟨before, reply, rfl, hanswer⟩

/-- The answer that shows the absence is the last thing exchanged. -/
theorem AbsenceShown.last
    (h : AbsenceShown (before ++ [.inquiry reply])) :
    reply.ret = 0 ∧
      (reply.info.relDate = gcodeRelDate ∨ isStockRelDate reply.info.relDate = true) := by
  rcases h with ⟨reply', heq, hanswer⟩ | ⟨first, second, heq, -, hanswer⟩
  · obtain ⟨-, hlast⟩ := List.append_inj' (heq.trans (List.nil_append _).symm) rfl
    cases hlast
    exact ⟨hanswer.1, Or.inl hanswer.2⟩
  · have hsplit : before ++ [.inquiry reply] = [.inquiry first, bypassExit] ++ [.inquiry second] :=
      heq
    obtain ⟨-, hlast⟩ := List.append_inj' hsplit rfl
    cases hlast
    exact ⟨hanswer.1, Or.inr hanswer.2⟩

theorem AbsenceShown.length_le (h : AbsenceShown said) : said.length ≤ 3 := by
  rcases h with ⟨reply, rfl, -⟩ | ⟨first, second, rfl, -, -⟩
  · exact Nat.le_add_left 1 2
  · exact Nat.le_refl 3

theorem FirmwareAnswered.not_absence
    (h : FirmwareAnswered said) : ¬ AbsenceShown said := by
  obtain ⟨before, reply, rfl, -, hdate⟩ := h
  intro habsent
  have hlast := habsent.last.2
  rw [hdate] at hlast
  revert hlast
  decide

/-- The loop ends with an answer of the firmware, or without one. -/
theorem fdrvAwaitFirmware_spec
    (replies : Nat → InquiryReply) (left : Nat) (t : DriveTalk) :
    (∃ before reply, (fdrvAwaitFirmware replies left t).2.said = before ++ [.inquiry reply] ∧
        reply.Answers (· = flippyRelDateFirmware) ∧
        (fdrvAwaitFirmware replies left t).1 = some reply.info) ∨
      (fdrvAwaitFirmware replies left t).1 = none ∧
        (0 < left →
          t.said.length < (fdrvAwaitFirmware replies left t).2.said.length ∧
            ¬ FirmwareAnswered (fdrvAwaitFirmware replies left t).2.said) := by
  induction left generalizing t with
  | zero =>
      exact Or.inr ⟨rfl, fun h => absurd h (Nat.lt_irrefl 0)⟩
  | succ left ih =>
      obtain ⟨next, hnext⟩ : ∃ next : DriveTalk,
          next = ⟨t.asked + 1, t.said ++ [.inquiry (replies t.asked)]⟩ := ⟨_, rfl⟩
      have hlonger : t.said.length < next.said.length := by
        rw [hnext, List.length_append]
        exact Nat.lt_succ_self _
      by_cases hanswer : (replies t.asked).Answers (· = flippyRelDateFirmware)
      · have heq : fdrvAwaitFirmware replies (left + 1) t =
            (some (replies t.asked).info, next) := by
          rw [hnext]
          exact if_pos hanswer
        rw [heq, hnext]
        exact Or.inl ⟨_, _, rfl, hanswer, rfl⟩
      · have heq : fdrvAwaitFirmware replies (left + 1) t =
            fdrvAwaitFirmware replies left next := by
          rw [hnext]
          exact if_neg hanswer
        rw [heq]
        refine (ih next).imp_right fun ⟨hnone, hrest⟩ => ⟨hnone, fun _ => ?_⟩
        cases left with
        | zero =>
            refine ⟨hlonger, fun hfirmware => hanswer ?_⟩
            rw [fdrvAwaitFirmware, hnext] at hfirmware
            exact firmwareAnswered_snoc.1 hfirmware
        | succ left =>
            obtain ⟨hlength, hnot⟩ := hrest (Nat.succ_pos left)
            exact ⟨Nat.lt_trans hlonger hlength, hnot⟩

/-- The answer `info` is the last thing exchanged, and what it says of the drive's absence. -/
structure Standing (info : DvdInfo) (t : DriveTalk) : Prop where
  answered : ∃ before reply, t.said = before ++ [.inquiry reply] ∧ reply.ret = 0 ∧
    reply.info = info
  absence : AbsenceShown t.said ↔ isStockRelDate info.relDate = true

/-- The first answer is not the one of a GC Loader, and the bypass is left. -/
theorem fdrvLeaveBypass_spec
    (replies : Nat → InquiryReply)
    (hsaid : t.said = [.inquiry reply]) (hret : reply.ret = 0)
    (hdate : reply.info.relDate ≠ gcodeRelDate) :
    (∃ info t', fdrvLeaveBypass replies reply.info t = (some info, t') ∧ Standing info t') ∨
      ∃ t', fdrvLeaveBypass replies reply.info t = (none, t') ∧
        ¬ FirmwareAnswered t'.said ∧ ¬ AbsenceShown t'.said := by
  by_cases hstock : isStockRelDate reply.info.relDate = true
  · obtain ⟨second, hsecond⟩ : ∃ second, second = replies t.asked := ⟨_, rfl⟩
    obtain ⟨next, hnext⟩ : ∃ next : DriveTalk,
        next = ⟨t.asked + 1, [.inquiry reply, bypassExit] ++ [.inquiry second]⟩ := ⟨_, rfl⟩
    have heq : fdrvLeaveBypass replies reply.info t =
        if second.ret ≠ 0 then (none, next) else (some second.info, next) := by
      rw [fdrvLeaveBypass, if_pos hstock, hnext, hsecond]
      simp only [fdrvCmd, fdrvInquiry, hsaid]
      rfl
    rw [heq]
    have habsence : AbsenceShown next.said ↔
        second.ret = 0 ∧ isStockRelDate second.info.relDate = true := by
      constructor
      · rintro (⟨other, hother, -⟩ | ⟨other, other', hother, -, hanswer⟩)
        · rw [hnext] at hother
          cases hother
        · rw [hnext] at hother
          cases hother
          exact hanswer
      · intro hanswer
        exact Or.inr ⟨reply, second, by rw [hnext]; rfl, ⟨hret, hstock⟩, hanswer⟩
    by_cases hfail : second.ret = 0
    · rw [if_neg (Decidable.not_not.2 hfail)]
      refine Or.inl ⟨_, _, rfl, ⟨_, second, by rw [hnext], hfail, rfl⟩, ?_⟩
      rw [habsence]
      exact and_iff_right hfail
    · rw [if_pos hfail]
      refine Or.inr ⟨_, rfl, fun hfirmware => hfail ?_, fun habsent => hfail ?_⟩
      · rw [hnext] at hfirmware
        exact (firmwareAnswered_snoc.1 hfirmware).1
      · exact (habsence.1 habsent).1
  · have heq : fdrvLeaveBypass replies reply.info t = (some reply.info, t) := if_neg hstock
    refine Or.inl ⟨_, _, heq, ⟨[], reply, hsaid, hret, rfl⟩, ?_⟩
    refine iff_of_false (fun habsent => ?_) hstock
    rw [hsaid] at habsent
    have hlast : AbsenceShown ([] ++ [.inquiry reply]) := habsent
    rcases hlast.last.2 with hloader | hstock'
    · exact hdate hloader
    · exact hstock hstock'

/-- The firmware is started if it has to be. -/
theorem fdrvLeaveBootloader_spec
    (replies : Nat → InquiryReply) (h : Standing info t) :
    (∃ info' t', fdrvLeaveBootloader replies info t = (some info', t') ∧ Standing info' t') ∨
      ∃ t', fdrvLeaveBootloader replies info t = (none, t') ∧
        ¬ FirmwareAnswered t'.said ∧ ¬ AbsenceShown t'.said := by
  by_cases hboot : info.relDate = flippyRelDateBootloader
  · obtain ⟨next, hnext⟩ : ∃ next, next =
        fdrvCmd dvdOemInquiry flippyBootMagic0 flippyNoupdateMagic1
          (fdrvCmd dvdOemInquiry flippyBootMagic0 flippyBootMagic1 t) := ⟨_, rfl⟩
    have heq : fdrvLeaveBootloader replies info t =
        fdrvAwaitFirmware replies fdrvBootAttempts next := by
      rw [hnext]
      exact if_pos hboot
    rw [heq]
    rcases fdrvAwaitFirmware_spec replies fdrvBootAttempts next with
      ⟨before, reply, hsaid, hanswer, hsome⟩ | ⟨hnone, hrest⟩
    · refine Or.inl ⟨reply.info, _, Prod.ext hsome rfl,
        ⟨before, reply, hsaid, hanswer.1, rfl⟩, ?_⟩
      refine iff_of_false (FirmwareAnswered.not_absence ⟨before, reply, hsaid, hanswer⟩) ?_
      rw [hanswer.2]
      decide
    · obtain ⟨hlength, hfirmware⟩ := hrest (by decide)
      refine Or.inr ⟨_, Prod.ext hnone rfl, hfirmware, fun habsent => ?_⟩
      obtain ⟨before, reply, hsaid, -, -⟩ := h.answered
      have hthree : 3 ≤ next.said.length := by
        rw [hnext]
        simp only [fdrvCmd, hsaid, List.length_append, List.length_cons, List.length_nil]
        omega
      exact absurd habsent.length_le (Nat.not_le.2 (Nat.lt_of_le_of_lt hthree hlength))
  · exact Or.inl ⟨info, t, if_neg hboot, h⟩

/-- What an unknown verdict becomes in a call, and what was exchanged for it. -/
inductive Settled (s : FdrvState) (c : ProbeCall) : Prop
  | present
      (found : c.found = true) (verdict : c.state.hasFdrv = 1)
      (shown : FirmwareAnswered c.said)
  | absent
      (found : c.found = false) (verdict : c.state.hasFdrv = 0)
      (shown : AbsenceShown c.said)
  | unknown
      (found : c.found = false) (verdict : c.state.hasFdrv = s.hasFdrv)
      (noFirmware : ¬ FirmwareAnswered c.said) (noAbsence : ¬ AbsenceShown c.said)

theorem fdrvConclude_settled (s : FdrvState) (h : Standing info t) :
    Settled s (fdrvConclude info s t) := by
  obtain ⟨before, reply, hsaid, hret, hinfo⟩ := h.answered
  by_cases hfirmware : info.relDate = flippyRelDateFirmware
  · rw [fdrvConclude, if_pos hfirmware]
    exact .present rfl rfl ⟨before, reply, hsaid, hret, by rw [hinfo]; exact hfirmware⟩
  · by_cases hstock : isStockRelDate info.relDate = true
    · rw [fdrvConclude, if_neg hfirmware, if_pos hstock]
      exact .absent rfl rfl (h.absence.2 hstock)
    · rw [fdrvConclude, if_neg hfirmware, if_neg hstock]
      refine .unknown rfl rfl (fun hshown => hfirmware ?_) (fun habsent => hstock ?_)
      · rw [hsaid] at hshown
        rw [← hinfo]
        exact (firmwareAnswered_snoc.1 hshown).2
      · exact h.absence.1 habsent

/-- A call that does not know yet. -/
theorem fdrvProbe_settled
    (replies : Nat → InquiryReply) (h : s.hasFdrv < 0) : Settled s (fdrvProbe replies s) := by
  obtain ⟨first, hfirst⟩ : ∃ first, first = replies s.asked := ⟨_, rfl⟩
  obtain ⟨t, ht⟩ : ∃ t : DriveTalk, t = ⟨s.asked + 1, [.inquiry first]⟩ := ⟨_, rfl⟩
  have hinquiry : fdrvInquiry replies ⟨s.asked, []⟩ = (first, t) := by
    rw [ht, hfirst]
    rfl
  have hsaid : t.said = [] ++ [.inquiry first] := by
    rw [ht]
    rfl
  rw [fdrvProbe, if_neg (Int.not_le.2 h), hinquiry]
  by_cases hfail : first.ret = 0
  · simp only [hfail, ne_eq, not_true, if_false]
    by_cases hloader : first.info.relDate = gcodeRelDate
    · rw [if_pos hloader]
      exact .absent rfl rfl (Or.inl ⟨first, hsaid, hfail, hloader⟩)
    · rw [if_neg hloader]
      rcases fdrvLeaveBypass_spec replies hsaid hfail hloader with
        ⟨info, t', heq, hstanding⟩ | ⟨t', heq, hfirmware, habsent⟩
      · rw [heq]
        rcases fdrvLeaveBootloader_spec replies hstanding with
          ⟨info', t'', heq', hstanding'⟩ | ⟨t'', heq', hfirmware, habsent⟩
        · simp only [heq']
          exact fdrvConclude_settled s hstanding'
        · simp only [heq']
          exact .unknown rfl rfl hfirmware habsent
      · rw [heq]
        exact .unknown rfl rfl hfirmware habsent
  · simp only [ne_eq, hfail, not_false_iff, if_true]
    refine .unknown rfl rfl (fun hshown => hfail ?_) (fun habsent => hfail ?_)
    · rw [hsaid] at hshown
      exact (firmwareAnswered_snoc.1 hshown).1
    · rw [hsaid] at habsent
      exact habsent.last.1

/-- What a call makes of the verdict. -/
structure CachesCertainties (s : FdrvState) (c : ProbeCall) : Prop where
  /-- A verdict that is there is not changed. -/
  kept : s.hasFdrv ≠ -1 → c.state.hasFdrv = s.hasFdrv
  /-- The drive is there just when the firmware has answered last. -/
  present : s.hasFdrv = -1 → (c.state.hasFdrv = 1 ↔ FirmwareAnswered c.said)
  /-- It is not there just when its absence was shown. -/
  absent : s.hasFdrv = -1 → (c.state.hasFdrv = 0 ↔ AbsenceShown c.said)
  /-- Nothing else leaves a verdict. -/
  unknown : s.hasFdrv = -1 → c.state.hasFdrv = -1 ∨ c.state.hasFdrv = 0 ∨ c.state.hasFdrv = 1
  /-- The call returns the verdict. -/
  found : c.found = true ↔ c.state.hasFdrv = 1

theorem Settled.caches
    {c : ProbeCall} (h : Settled s c) (hs : s.hasFdrv = -1) : CachesCertainties s c := by
  have hkept : s.hasFdrv ≠ -1 → c.state.hasFdrv = s.hasFdrv := fun hne => absurd hs hne
  cases h with
  | present found verdict shown =>
      refine ⟨hkept, fun _ => iff_of_true verdict shown, fun _ => iff_of_false ?_ ?_,
        fun _ => Or.inr (Or.inr verdict), iff_of_true found verdict⟩
      · omega
      · exact shown.not_absence
  | absent found verdict shown =>
      refine ⟨hkept, fun _ => iff_of_false ?_ ?_, fun _ => iff_of_true verdict shown,
        fun _ => Or.inr (Or.inl verdict), iff_of_false ?_ ?_⟩
      · omega
      · exact fun hfirmware => hfirmware.not_absence shown
      · rw [found]
        exact Bool.false_ne_true
      · omega
  | unknown found verdict noFirmware noAbsence =>
      refine ⟨hkept, fun _ => iff_of_false ?_ noFirmware, fun _ => iff_of_false ?_ noAbsence,
        fun _ => Or.inl (verdict.trans hs), iff_of_false ?_ ?_⟩
      · omega
      · omega
      · rw [found]
        exact Bool.false_ne_true
      · omega

/-- A call that knows already. -/
theorem fdrvProbe_known
    (replies : Nat → InquiryReply) (h : 0 ≤ s.hasFdrv) :
    fdrvProbe replies s = ⟨s.hasFdrv == 1, s, []⟩ :=
  if_pos h

theorem fdrvProbe_caches
    (replies : Nat → InquiryReply) (h : s.hasFdrv = -1 ∨ 0 ≤ s.hasFdrv) :
    CachesCertainties s (fdrvProbe replies s) := by
  rcases h with hunknown | hknown
  · exact (fdrvProbe_settled replies (by omega)).caches hunknown
  · rw [fdrvProbe_known replies hknown]
    exact ⟨fun _ => rfl, fun hs => by omega, fun hs => by omega, fun hs => by omega,
      beq_iff_eq⟩

/-- The verdict after any number of calls. -/
theorem fdrvProbes_verdict (replies : Nat → InquiryReply) (n : Nat) :
    (fdrvProbes replies n).hasFdrv = -1 ∨ 0 ≤ (fdrvProbes replies n).hasFdrv := by
  induction n with
  | zero =>
      exact Or.inl rfl
  | succ n ih =>
      have hcall := fdrvProbe_caches replies ih
      rw [fdrvProbes]
      rcases ih with hunknown | hknown
      · have := hcall.unknown hunknown
        omega
      · right
        rw [hcall.kept (by omega)]
        exact hknown

/--
In every run of calls, each call caches what is certain and returns it, and a verdict
is the same ever after.
-/
theorem fdrv_caches_certainties (replies : Nat → InquiryReply) (n : Nat) :
    CachesCertainties (fdrvProbes replies n) (fdrvProbe replies (fdrvProbes replies n)) ∧
      ∀ m, (fdrvProbes replies n).hasFdrv ≠ -1 →
        (fdrvProbes replies (n + m)).hasFdrv = (fdrvProbes replies n).hasFdrv := by
  refine ⟨fdrvProbe_caches replies (fdrvProbes_verdict replies n), fun m hknown => ?_⟩
  induction m with
  | zero =>
      rfl
  | succ m ih =>
      have hcall := fdrvProbe_caches replies (fdrvProbes_verdict replies (n + m))
      rw [← Nat.add_assoc, fdrvProbes, hcall.kept (by rw [ih]; exact hknown), ih]

end Drives
end Cubiboot
