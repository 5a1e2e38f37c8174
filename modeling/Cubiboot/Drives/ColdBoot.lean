import Cubiboot.Drives.Fdrv

/-!
# A GC Loader that is slow

On a cold boot a GC Loader does not answer at once.  The first read of `cubeboot.dol` is
tried sixty times, and each try mounts whatever comes up: `fdrv_probe` asks the drive on
the disc interface first, then `gcode_sd_init` does.

There is one drive on that interface.  The inquiries of both are numbered together, and
what becomes of each of them is arbitrary.

Results: `gcodeSdInitLoop_spec`, the inquiries of one `gcode_sd_init`;
`fdrvProbe_misses`, that `fdrv_probe` takes a loader for no FlippyDrive, and how often
it asks; `Missed.settleLoop`, by induction on the tries, that a loader once missed is
missed for good; and `loader_found_iff`, for which loaders the loop mounts one.
-/

namespace Cubiboot
namespace Drives

/-- What becomes of an inquiry. -/
inductive InquiryOutcome where
  /-- The transfer does not end in time. -/
  | timeout (info : DvdInfo)
  /-- The drive reports an error. -/
  | deviceError (info : DvdInfo)
  | answer (info : DvdInfo)
deriving DecidableEq

/-- What `fdrv_inquiry` makes of it. -/
def InquiryOutcome.reply : InquiryOutcome → InquiryReply
  | .timeout info => ⟨1, info⟩
  | .deviceError info => ⟨1, info⟩
  | .answer info => ⟨0, info⟩

/-- The drive answers as a GC Loader does. -/
def InquiryOutcome.Signature (outcome : InquiryOutcome) : Prop :=
  ∃ info, outcome = .answer info ∧ info.relDate = gcodeRelDate

/-- The transfer does not end in time. -/
def InquiryOutcome.TimedOut (outcome : InquiryOutcome) : Prop :=
  ∃ info, outcome = .timeout info

/-- `GCODE_INIT_ATTEMPTS`. -/
abbrev gcodeInitAttempts : Nat := 40

/-- The number of devices in `device_prio`. -/
abbrev numDevices : Nat := 8

/-- `DEVICE_FLIPPY`. -/
abbrev deviceFlippy : Nat := 0

/-- The place of `gcldr` in `device_prio`. -/
abbrev deviceGcldr : Nat := 1

/-- The passes of the loop in `main` that waits for the drive. -/
abbrev settlePasses : Nat := 60

/-- What is attached to the console, and what becomes of the calls. -/
structure Attached where
  /-- What becomes of the inquiry with this number. -/
  outcomes : Nat → InquiryOutcome
  /-- `disk_initialize` succeeds for the drive at this place, on the EXI bus. -/
  initialises : Nat → Bool
  /-- FatFs finds a volume on the drive at this place. -/
  hasVolume : Nat → Bool
  /-- In this pass `/config.ini` is found on the device that is mounted. -/
  configFound : Nat → Bool

/-- What is kept between two mounts. -/
structure MountState where
  fdrv : FdrvState
  hasGcode : Int
  emuSdDevice : Int

/-- Before the first mount. -/
def MountState.boot : MountState :=
  ⟨.boot, -1, -1⟩

variable (a : Attached)

/-- What `fdrv_inquiry` sees. -/
def Attached.replies (n : Nat) : InquiryReply :=
  (a.outcomes n).reply

/-- The loop of `gcode_sd_init`: `has_gcode`, and the number of inquiries so far. -/
def gcodeSdInitLoop : Nat → Nat → Int × Nat
  | 0, asked => (0, asked)
  | left + 1, asked =>
      match a.outcomes asked with
      | .timeout _ => (0, asked + 1)
      | .deviceError _ => gcodeSdInitLoop left (asked + 1)
      | .answer info =>
          if info.relDate = gcodeRelDate then (1, asked + 1)
          else gcodeSdInitLoop left (asked + 1)

/-- `gcode_sd_init`. -/
def gcodeSdInit (s : MountState) : Bool × MountState :=
  if s.hasGcode ≥ 0 then
    (s.hasGcode == 1, s)
  else
    match gcodeSdInitLoop a gcodeInitAttempts s.fdrv.asked with
    | (hasGcode, asked) =>
        (hasGcode == 1, { s with fdrv := { s.fdrv with asked := asked }, hasGcode := hasGcode })

/-- `f_mount`, which initialises the drive and looks for a volume on it. -/
def fMount (i : Nat) (s : MountState) : Bool × MountState :=
  if i = deviceGcldr then
    match gcodeSdInit a s with
    | (ready, s) => (ready && a.hasVolume i, s)
  else
    (a.initialises i && a.hasVolume i, s)

/-- `device_bring_up`. -/
def deviceBringUp (i : Nat) (s : MountState) : Bool × MountState :=
  if i = deviceFlippy then
    ((fdrvProbe a.replies s.fdrv).found, { s with fdrv := (fdrvProbe a.replies s.fdrv).state })
  else
    fMount a i s

/-- The loop of `flippy_emu_mount`, from device `i` on. -/
def flippyEmuMountLoop : Nat → Nat → MountState → Bool × MountState
  | 0, _, s => (false, s)
  | left + 1, i, s =>
      match deviceBringUp a i s with
      | (true, s) => (true, { s with emuSdDevice := i })
      | (false, s) => flippyEmuMountLoop left (i + 1) s

/-- `flippy_emu_mount` of `cubeboot.dol`. -/
def flippyEmuMount (s : MountState) : Bool × MountState :=
  if s.emuSdDevice < 0 then flippyEmuMountLoop a numDevices 0 s else (true, s)

/-- The passes that are left of the loop in `main`, from pass `i` on. -/
def settleLoop : Nat → Nat → MountState → MountState
  | 0, _, s => s
  | left + 1, i, s =>
      match flippyEmuMount a s with
      | (true, s) => if a.configFound i then s else settleLoop left (i + 1) s
      | (false, s) => settleLoop left (i + 1) s

/-- After the loop in `main` that waits for the drive. -/
def settled : MountState :=
  settleLoop a settlePasses 0 .boot

/-- There is no other device, and FatFs mounts what initialises. -/
structure OnlyLoader : Prop where
  noFlippy : ∀ n, ¬ (a.replies n).Answers (· = flippyRelDateFirmware)
  noOther : ∀ i, a.initialises i = false
  mounts : ∀ i, a.hasVolume i = true

/-- The inquiries of an `fdrv_probe` that starts with number `n`, when no FlippyDrive answers
them. -/
def probeInquiries (n : Nat) : Nat :=
  if (a.replies n).ret ≠ 0 then
    1
  else if isStockRelDate (a.replies n).info.relDate then
    2 + if (a.replies (n + 1)).ret = 0 ∧
        (a.replies (n + 1)).info.relDate = flippyRelDateBootloader then fdrvBootAttempts else 0
  else
    1 + if (a.replies n).info.relDate = flippyRelDateBootloader then fdrvBootAttempts else 0

/-- Within so many inquiries from number `n` on there is an answer of the loader, and none
before it times out. -/
def AnswersWithin (attempts n : Nat) : Prop :=
  ∃ j < attempts, (a.outcomes (n + j)).Signature ∧ ∀ i < j, ¬ (a.outcomes (n + i)).TimedOut

variable {a : Attached} {s s' : MountState} {n left : Nat}

theorem answersWithin_succ :
    AnswersWithin a (left + 1) n ↔
      (a.outcomes n).Signature ∨ ¬ (a.outcomes n).TimedOut ∧ AnswersWithin a left (n + 1) := by
  constructor
  · rintro ⟨j, hj, hanswer, hbefore⟩
    cases j with
    | zero =>
        exact Or.inl hanswer
    | succ j =>
        right
        refine ⟨hbefore 0 (Nat.succ_pos j), j, Nat.lt_of_succ_lt_succ hj, ?_, fun i hi => ?_⟩
        · rw [Nat.add_right_comm]
          exact hanswer
        · rw [Nat.add_right_comm]
          exact hbefore (i + 1) (Nat.succ_lt_succ hi)
  · rintro (hanswer | ⟨hfirst, j, hj, hanswer, hbefore⟩)
    · exact ⟨0, Nat.succ_pos left, hanswer, fun i hi => absurd hi (Nat.not_lt_zero i)⟩
    · refine ⟨j + 1, Nat.succ_lt_succ hj, ?_, fun i hi => ?_⟩
      · rw [← Nat.add_assoc, Nat.add_right_comm]
        exact hanswer
      · cases i with
        | zero =>
            exact hfirst
        | succ i =>
            rw [← Nat.add_assoc, Nat.add_right_comm]
            exact hbefore i (Nat.lt_of_succ_lt_succ hi)

/-- The verdict of `gcode_sd_init` is never left open. -/
theorem gcodeSdInitLoop_spec (left n : Nat) :
    (gcodeSdInitLoop a left n).1 = 1 ∧ AnswersWithin a left n ∨
      (gcodeSdInitLoop a left n).1 = 0 ∧ ¬ AnswersWithin a left n := by
  induction left generalizing n with
  | zero =>
      right
      refine ⟨rfl, ?_⟩
      rintro ⟨j, hj, -⟩
      exact absurd hj (Nat.not_lt_zero j)
  | succ left ih =>
      rw [answersWithin_succ, gcodeSdInitLoop]
      cases hout : a.outcomes n with
      | timeout info =>
          right
          refine ⟨rfl, ?_⟩
          rintro (⟨_, heq, _⟩ | ⟨hno, _⟩)
          · cases heq
          · exact hno ⟨info, rfl⟩
      | deviceError info =>
          refine (ih (n + 1)).imp (fun h => ⟨h.1, Or.inr ⟨?_, h.2⟩⟩) (fun h => ⟨h.1, ?_⟩)
          · rintro ⟨_, heq⟩
            cases heq
          · rintro (⟨_, heq, _⟩ | ⟨_, hrest⟩)
            · cases heq
            · exact h.2 hrest
      | answer info =>
          by_cases hdate : info.relDate = gcodeRelDate
          · left
            simp only [if_pos hdate]
            exact ⟨trivial, Or.inl ⟨info, rfl, hdate⟩⟩
          · simp only [if_neg hdate]
            refine (ih (n + 1)).imp (fun h => ⟨h.1, Or.inr ⟨?_, h.2⟩⟩) (fun h => ⟨h.1, ?_⟩)
            · rintro ⟨_, heq⟩
              cases heq
            · rintro (⟨_, heq, hloader⟩ | ⟨_, hrest⟩)
              · cases heq
                exact hdate hloader
              · exact h.2 hrest

theorem fdrvAwaitFirmware_without
    (h : OnlyLoader a) (left : Nat) (t : DriveTalk) :
    (fdrvAwaitFirmware a.replies left t).1 = none ∧
      (fdrvAwaitFirmware a.replies left t).2.asked = t.asked + left := by
  induction left generalizing t with
  | zero =>
      exact ⟨rfl, rfl⟩
  | succ left ih =>
      have heq : fdrvAwaitFirmware a.replies (left + 1) t =
          fdrvAwaitFirmware a.replies left
            ⟨t.asked + 1, t.said ++ [.inquiry (a.replies t.asked)]⟩ :=
        if_neg (h.noFlippy t.asked)
      rw [heq]
      obtain ⟨hnone, hasked⟩ := ih ⟨t.asked + 1, t.said ++ [.inquiry (a.replies t.asked)]⟩
      refine ⟨hnone, ?_⟩
      rw [hasked]
      simp only
      omega

/-- Without a FlippyDrive the firmware does not follow an answer. -/
theorem fdrvLeaveBootloader_without
    (h : OnlyLoader a) (info : DvdInfo) (t : DriveTalk) :
    (fdrvLeaveBootloader a.replies info t).1 =
        (if info.relDate = flippyRelDateBootloader then none else some info) ∧
      (fdrvLeaveBootloader a.replies info t).2.asked =
        t.asked + if info.relDate = flippyRelDateBootloader then fdrvBootAttempts else 0 := by
  by_cases hboot : info.relDate = flippyRelDateBootloader
  · rw [fdrvLeaveBootloader, if_pos hboot, if_pos hboot, if_pos hboot]
    exact fdrvAwaitFirmware_without h fdrvBootAttempts _
  · rw [fdrvLeaveBootloader, if_neg hboot, if_neg hboot, if_neg hboot]
    exact ⟨rfl, rfl⟩

/-- A call that finds nothing, after so many inquiries. -/
structure Misses (c : ProbeCall) (asked : Nat) : Prop where
  found : c.found = false
  verdict : c.state.hasFdrv ≠ 1
  asked : c.state.asked = asked

theorem fdrvConclude_misses
    {info : DvdInfo} (hinfo : info.relDate ≠ flippyRelDateFirmware)
    {f : FdrvState} (hf : f.hasFdrv ≠ 1) (t : DriveTalk) :
    Misses (fdrvConclude info f t) t.asked := by
  rw [fdrvConclude, if_neg hinfo]
  by_cases hstock : isStockRelDate info.relDate = true
  · rw [if_pos hstock]
    exact ⟨rfl, Int.zero_ne_one, rfl⟩
  · rw [if_neg hstock]
    exact ⟨rfl, hf, rfl⟩

/-- The rest of a call, after an answer that is not the firmware's. -/
theorem fdrvRest_misses
    (h : OnlyLoader a) {info : DvdInfo} (hinfo : info.relDate ≠ flippyRelDateFirmware)
    {f : FdrvState} (hf : f.hasFdrv ≠ 1) (t : DriveTalk) :
    Misses
      (match fdrvLeaveBootloader a.replies info t with
        | (none, t) => ⟨false, { f with asked := t.asked }, t.said⟩
        | (some info, t) => fdrvConclude info f t)
      (t.asked + if info.relDate = flippyRelDateBootloader then fdrvBootAttempts else 0) := by
  obtain ⟨hresult, hasked⟩ := fdrvLeaveBootloader_without h info t
  rw [← hasked]
  rcases hcall : fdrvLeaveBootloader a.replies info t with ⟨result, t'⟩
  rw [hcall] at hresult
  by_cases hboot : info.relDate = flippyRelDateBootloader
  · rw [if_pos hboot] at hresult
    subst hresult
    exact ⟨rfl, hf, rfl⟩
  · rw [if_neg hboot] at hresult
    subst hresult
    exact fdrvConclude_misses hinfo hf t'

/-- A probe then finds nothing. -/
theorem fdrvProbe_misses (h : OnlyLoader a) {f : FdrvState} (hunknown : f.hasFdrv < 0) :
    Misses (fdrvProbe a.replies f) (f.asked + probeInquiries a f.asked) := by
  obtain ⟨t, ht⟩ : ∃ t : DriveTalk,
      t = ⟨f.asked + 1, [.inquiry (a.replies f.asked)]⟩ := ⟨_, rfl⟩
  have hinquiry : fdrvInquiry a.replies ⟨f.asked, []⟩ = (a.replies f.asked, t) := by
    rw [ht]
    rfl
  have hasked : t.asked = f.asked + 1 := by
    rw [ht]
  have hf : f.hasFdrv ≠ 1 := by
    omega
  rw [fdrvProbe, if_neg (Int.not_le.2 hunknown), hinquiry, probeInquiries]
  by_cases hfail : (a.replies f.asked).ret = 0
  · have hinfo : (a.replies f.asked).info.relDate ≠ flippyRelDateFirmware :=
      fun hdate => h.noFlippy _ ⟨hfail, hdate⟩
    rw [if_neg (Decidable.not_not.2 hfail)]
    simp only [hfail, ne_eq, not_true, if_false]
    by_cases hloader : (a.replies f.asked).info.relDate = gcodeRelDate
    · rw [if_pos hloader, hloader, if_neg (by decide), if_neg (by decide), ← hasked]
      exact ⟨rfl, Int.zero_ne_one, rfl⟩
    · rw [if_neg hloader]
      by_cases hstock : isStockRelDate (a.replies f.asked).info.relDate = true
      · obtain ⟨second, hsecond⟩ : ∃ second, second = a.replies t.asked := ⟨_, rfl⟩
        obtain ⟨t', ht'⟩ : ∃ t' : DriveTalk, t' =
            ⟨t.asked + 1, t.said ++ [bypassExit] ++ [.inquiry second]⟩ := ⟨_, rfl⟩
        have hleave : fdrvLeaveBypass a.replies (a.replies f.asked).info t =
            if second.ret ≠ 0 then (none, t') else (some second.info, t') := by
          rw [fdrvLeaveBypass, if_pos hstock, ht', hsecond]
          rfl
        have hasked' : t'.asked = f.asked + 2 := by
          rw [ht', hasked]
        rw [hleave, if_pos hstock, ← hasked, ← hsecond]
        by_cases hfail' : second.ret = 0
        · have hinfo' : second.info.relDate ≠ flippyRelDateFirmware := by
            intro hdate
            rw [hsecond] at hfail' hdate
            exact h.noFlippy _ ⟨hfail', hdate⟩
          have hrest := fdrvRest_misses h hinfo' hf t'
          simp only [hfail', ne_eq, not_true, if_false, true_and]
          rw [← Nat.add_assoc, ← hasked']
          exact hrest
        · simp only [hfail', ne_eq, not_false_iff, if_true, false_and, if_false]
          rw [← hasked']
          exact ⟨rfl, hf, rfl⟩
      · have hstay : fdrvLeaveBypass a.replies (a.replies f.asked).info t =
            (some (a.replies f.asked).info, t) := if_neg hstock
        rw [hstay, if_neg hstock]
        have hrest := fdrvRest_misses h hinfo hf t
        rw [hasked, Nat.add_assoc] at hrest
        exact hrest
  · rw [if_pos hfail]
    simp only [ne_eq, hfail, not_false_iff, if_true]
    rw [← hasked]
    exact ⟨rfl, hf, rfl⟩

theorem deviceBringUp_flippy (h : OnlyLoader a) (hs : s.fdrv.hasFdrv ≠ 1) :
    ∃ f, deviceBringUp a deviceFlippy s = (false, { s with fdrv := f }) ∧ f.hasFdrv ≠ 1 ∧
      (s.fdrv.hasFdrv < 0 → f.asked = s.fdrv.asked + probeInquiries a s.fdrv.asked) := by
  rw [deviceBringUp, if_pos rfl]
  by_cases hunknown : s.fdrv.hasFdrv < 0
  · have hmiss := fdrvProbe_misses h hunknown
    rw [hmiss.found]
    exact ⟨_, rfl, hmiss.verdict, fun _ => hmiss.asked⟩
  · rw [fdrvProbe_known a.replies (Int.not_lt.1 hunknown), beq_false_of_ne hs]
    exact ⟨_, rfl, hs, fun hlt => absurd hlt hunknown⟩

theorem deviceBringUp_gcldr (h : OnlyLoader a) (s : MountState) :
    deviceBringUp a deviceGcldr s = gcodeSdInit a s := by
  rw [deviceBringUp, if_neg (by decide), fMount, if_pos rfl, h.mounts]
  simp only [Bool.and_true]

theorem flippyEmuMountLoop_others
    (h : OnlyLoader a) (left : Nat) {i : Nat} (hi : deviceGcldr < i) (s : MountState) :
    flippyEmuMountLoop a left i s = (false, s) := by
  induction left generalizing i with
  | zero =>
      rfl
  | succ left ih =>
      have hdown : deviceBringUp a i s = (false, s) := by
        rw [deviceBringUp, if_neg (Nat.ne_zero_of_lt hi), fMount, if_neg (Nat.ne_of_gt hi),
          h.noOther, Bool.false_and]
      rw [flippyEmuMountLoop, hdown]
      exact ih (Nat.lt_succ_of_lt hi)

/-- A mount is `gcode_sd_init`, after a probe that finds nothing. -/
theorem flippyEmuMount_eq
    (h : OnlyLoader a) (hs : s.fdrv.hasFdrv ≠ 1) (hnone : s.emuSdDevice < 0) :
    ∃ f, f.hasFdrv ≠ 1 ∧
      (s.fdrv.hasFdrv < 0 → f.asked = s.fdrv.asked + probeInquiries a s.fdrv.asked) ∧
      flippyEmuMount a s =
        match gcodeSdInit a { s with fdrv := f } with
        | (true, s) => (true, { s with emuSdDevice := deviceGcldr })
        | (false, s) => (false, s) := by
  obtain ⟨f, hprobe, hf, hasked⟩ := deviceBringUp_flippy h hs
  refine ⟨f, hf, hasked, ?_⟩
  rw [flippyEmuMount, if_pos hnone, flippyEmuMountLoop, hprobe]
  simp only
  rw [flippyEmuMountLoop, deviceBringUp_gcldr h]
  rcases gcodeSdInit a { s with fdrv := f } with ⟨ready, s'⟩
  cases ready with
  | true => rfl
  | false => exact flippyEmuMountLoop_others h _ (by decide) s'

/-- The loader is taken for absent. -/
structure Missed (s : MountState) : Prop where
  device : s.emuSdDevice < 0
  loader : s.hasGcode = 0
  flippy : s.fdrv.hasFdrv ≠ 1

/-- Once the loader is missed it stays missed. -/
theorem Missed.mount (h : OnlyLoader a) (hs : Missed s) :
    ∃ s', flippyEmuMount a s = (false, s') ∧ Missed s' := by
  obtain ⟨f, hf, -, heq⟩ := flippyEmuMount_eq h hs.flippy hs.device
  have hinit : gcodeSdInit a { s with fdrv := f } = (false, { s with fdrv := f }) := by
    rw [gcodeSdInit, if_pos (by simp only [hs.loader]; decide)]
    simp only [hs.loader]
    rfl
  rw [heq, hinit]
  exact ⟨_, rfl, hs.device, hs.loader, hf⟩

theorem Missed.settleLoop
    (h : OnlyLoader a) (hs : Missed s) (left i : Nat) : Missed (settleLoop a left i s) := by
  induction left generalizing i s with
  | zero =>
      exact hs
  | succ left ih =>
      obtain ⟨s', heq, hs'⟩ := hs.mount h
      rw [Drives.settleLoop, heq]
      exact ih hs' (i + 1)

/-- A device that is mounted is kept. -/
theorem settleLoop_mounted
    (hs : 0 ≤ s.emuSdDevice) (left i : Nat) : settleLoop a left i s = s := by
  induction left generalizing i with
  | zero =>
      rfl
  | succ left ih =>
      rw [settleLoop, flippyEmuMount, if_neg (Int.not_lt.2 hs)]
      cases hfound : a.configFound i with
      | true =>
          rfl
      | false =>
          exact ih (i + 1)

/-- The first mount decides. -/
theorem firstMount
    (h : OnlyLoader a) :
    (∃ s, flippyEmuMount a .boot = (true, s) ∧ s.emuSdDevice = deviceGcldr ∧
        AnswersWithin a gcodeInitAttempts (probeInquiries a 0)) ∨
      ∃ s, flippyEmuMount a .boot = (false, s) ∧ Missed s ∧
        ¬ AnswersWithin a gcodeInitAttempts (probeInquiries a 0) := by
  obtain ⟨f, hf, hasked, heq⟩ := flippyEmuMount_eq (s := .boot) h (by decide) (by decide)
  have hstart : f.asked = probeInquiries a 0 := (hasked (by decide)).trans (Nat.zero_add _)
  have hopen : ¬ MountState.boot.hasGcode ≥ 0 := by
    decide
  rw [heq, gcodeSdInit, if_neg hopen]
  simp only [hstart]
  rcases gcodeSdInitLoop_spec (a := a) gcodeInitAttempts (probeInquiries a 0) with
    ⟨hone, hwithin⟩ | ⟨hzero, hnot⟩
  · left
    rw [hone]
    exact ⟨_, rfl, rfl, hwithin⟩
  · right
    rw [hzero]
    exact ⟨_, rfl, ⟨Int.negSucc_lt_zero 0, rfl, hf⟩, hnot⟩

/--
The loop mounts the loader exactly when it answers within the inquiries of the first
`gcode_sd_init`, and none before that answer times out.  The verdict of this call
is kept, and the other passes change nothing.
-/
theorem loader_found_iff (a : Attached) (h : OnlyLoader a) :
    (settled a).emuSdDevice = deviceGcldr ↔
      AnswersWithin a gcodeInitAttempts (probeInquiries a 0) := by
  rw [settled, settleLoop]
  rcases firstMount h with ⟨s, heq, hdevice, hwithin⟩ | ⟨s, heq, hmissed, hnot⟩
  · have hkept : settleLoop a 59 1 s = s := settleLoop_mounted (by rw [hdevice]; decide) 59 1
    rw [heq]
    refine iff_of_true ?_ hwithin
    cases hfound : a.configFound 0 with
    | true =>
        exact hdevice
    | false =>
        simp only [Bool.false_eq_true, if_false]
        rw [hkept]
        exact hdevice
  · rw [heq]
    refine iff_of_false (fun hfound => ?_) hnot
    have hstill := hmissed.settleLoop h 59 1
    have hneg := hstill.device
    rw [hfound] at hneg
    exact absurd hneg (by decide)

/-- An answer of a GC Loader. -/
def loaderAnswer : InquiryOutcome :=
  .answer ⟨gcodeRelDate, ⟨0, 0, 0⟩⟩

/-- A loader that does so from inquiry `n` on, and before that is `early`. -/
def slowLoader (early : InquiryOutcome) (n : Nat) : Attached where
  outcomes m := if m < n then early else loaderAnswer
  initialises := fun _ => false
  hasVolume := fun _ => true
  configFound := fun _ => true

theorem slowLoader_only
    {early : InquiryOutcome} (h : early.reply.ret ≠ 0) (n : Nat) :
    OnlyLoader (slowLoader early n) := by
  refine ⟨fun m hanswer => ?_, fun _ => rfl, fun _ => rfl⟩
  simp only [Attached.replies, slowLoader] at hanswer
  split at hanswer
  · exact h hanswer.1
  · exact absurd hanswer.2 (by decide)

/-- The drive reports an error for three inquiries, and then answers. -/
theorem loader_found_after_errors :
    (settled (slowLoader (.deviceError ⟨0, ⟨0, 0, 0⟩⟩) 3)).emuSdDevice = deviceGcldr := by
  refine (loader_found_iff _ (slowLoader_only (by decide) 3)).2
    ⟨2, by decide, ⟨_, rfl, rfl⟩, fun i hi htimed => ?_⟩
  obtain ⟨info, heq⟩ := htimed
  have hfirst : i = 0 ∨ i = 1 := by
    omega
  rcases hfirst with rfl | rfl <;> cases heq

/-- From some inquiry of the loop on the drive always answers. -/
def RecoversInLoop (a : Attached) : Prop :=
  ∃ n < (settled a).fdrv.asked, ∀ m, n ≤ m → (a.outcomes m).Signature

/-- Two inquiries time out, and the drive answers from then on: it is never mounted. -/
theorem slow_loader_missed :
    OnlyLoader (slowLoader (.timeout ⟨0, ⟨0, 0, 0⟩⟩) 2) ∧
      RecoversInLoop (slowLoader (.timeout ⟨0, ⟨0, 0, 0⟩⟩) 2) ∧
      (settled (slowLoader (.timeout ⟨0, ⟨0, 0, 0⟩⟩) 2)).emuSdDevice ≠ deviceGcldr := by
  refine ⟨slowLoader_only (by decide) 2, ⟨2, by decide +kernel, fun m hm => ?_⟩,
    by decide +kernel⟩
  exact ⟨_, if_neg (Nat.not_lt.2 hm), rfl⟩

end Drives
end Cubiboot
