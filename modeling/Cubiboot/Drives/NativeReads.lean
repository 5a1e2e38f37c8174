import Cubiboot.Drives.Blocks

/-!
# Reads of a file that is open

`dvd_read` and `dvd_threaded_read` of `flippy_emu.c`.  On a FlippyDrive they are
the read command of the disc interface, which has the offset in words of 32
bits and transfers to memory in lines of 32 bytes; otherwise FatFs seeks and
reads.

The drive and FatFs are parameters.  What is asked of them is in
`FlippyDrive.HasOpen` and `FatFile.HasOpen`: the comments of `fdrv_read` and
`fdrv_dma` have the first, the interface of FatFs the second.

Results: `readsAgree_iff`, for which destinations, lengths and offsets the two ways to
read a file have the same status and the same bytes.
-/

namespace Cubiboot
namespace Drives

open CopyRange Words

/-- `DVD_OEM_READ`. -/
abbrev dvdOemRead : Nat := 0xA8000000

/-- The registers of a command that transfers to memory. -/
structure DiCommand where
  cmdbuf0 : Nat
  cmdbuf1 : Nat
  cmdbuf2 : Nat
  mar : Nat
  length : Nat

/-- `DI_SR_DEINT` after a command, and memory. -/
structure DiReply where
  deint : Bool
  memory : Bytes

/-- What a drive makes of a command. -/
abbrev FlippyDrive := DiCommand → Bytes → DiReply

/-- The file that FatFs has open: the results of `f_lseek` and `f_read`. -/
structure FatFile where
  /-- The result, and the place in the file. -/
  lseek : Nat → Nat × Nat
  /-- From a place in the file, to a place in memory. -/
  read : Nat → Nat → Nat → Bytes → Nat × Bytes

/-- A cached address as the buses have it. -/
def physical (address : Nat) : Nat :=
  address &&& 0x1FFFFFFF

/-- The command of a read. -/
def readCommand (dst len offset fd : Nat) : DiCommand where
  cmdbuf0 := dvdOemRead ||| (fd &&& 0xFF) <<< 16
  cmdbuf1 := word (offset >>> 2)
  cmdbuf2 := len
  mar := physical dst
  length := len

variable (drive : FlippyDrive) (volume : FatFile)

/-- The result of a command, by the error bit. -/
def diResult (reply : DiReply) : Int × Bytes :=
  (if reply.deint then 1 else 0, reply.memory)

/-- The read command, behind the check of the offset. -/
def oemRead (dst len offset fd : Nat) (memory : Bytes) : Int × Bytes :=
  if offset >>> 2 > 0xFFFFFFFF then
    (-1, memory)
  else
    diResult (drive (readCommand dst len offset fd) memory)

/-- `fdrv_read`, with `fdrv_dma`. -/
def fdrvRead := oemRead drive

/-- `fdrv_threaded_read`, which yields while it waits. -/
def fdrvThreadedRead := oemRead drive

/-- `normal_dvd_read`. -/
def normalDvdRead := oemRead drive

/-- `dvd_read`. -/
def dvdRead
    (passthrough native : Bool) (dst len offset fd : Nat) (memory : Bytes) : Int × Bytes :=
  if passthrough then
    normalDvdRead drive dst len offset fd memory
  else if native then
    fdrvRead drive dst len offset fd memory
  else
    match volume.lseek offset with
    | (res, place) =>
        if res ≠ 0 then
          (1, memory)
        else
          match volume.read place len (physical dst) memory with
          | (res, memory) => (if res ≠ 0 then 1 else 0, memory)

/-- `dvd_threaded_read`. -/
def dvdThreadedRead
    (passthrough native : Bool) (dst len offset fd : Nat) (memory : Bytes) : Int × Bytes :=
  if passthrough = false ∧ native = true then
    fdrvThreadedRead drive dst len offset fd memory
  else
    dvdRead drive volume passthrough native dst len offset fd memory

/--
A drive that has a file open delivers it, word by word, to a buffer that is
aligned as a transfer has it.
-/
def FlippyDrive.HasOpen (drive : FlippyDrive) (fd : Nat) (file : Bytes) (size : Nat) : Prop :=
  ∀ (command : DiCommand) (memory : Bytes),
    command.cmdbuf0 = (dvdOemRead ||| (fd &&& 0xFF) <<< 16) →
    command.cmdbuf2 = command.length → command.mar % 32 = 0 → command.length % 32 = 0 →
      4 * command.cmdbuf1 + command.length ≤ size →
        drive command memory =
          ⟨false, copyRange memory command.mar command.length
            fun i => file (4 * command.cmdbuf1 + i)⟩

/-- FatFs finds every place of a file, and reads from there. -/
structure FatFile.HasOpen (volume : FatFile) (file : Bytes) (size : Nat) : Prop where
  seeks : ∀ offset ≤ size, volume.lseek offset = (0, offset)
  reads : ∀ place len dst memory, place + len ≤ size →
    volume.read place len dst memory =
      (0, copyRange memory dst len fun i => file (place + i))

/-- A read succeeds, and its bytes are those of the file. -/
def Delivered (file : Bytes) (dst len offset : Nat) (r : Int × Bytes) : Prop :=
  r.1 = 0 ∧ ∀ i < len, r.2 (physical dst + i) = file (offset + i)

/--
A read delivers the same bytes on either device, whatever the file that is open,
from every place at which its bytes are within the file.
-/
def ReadsAgree (dst len offset : Nat) : Prop :=
  ∀ (drive : FlippyDrive) (volume : FatFile) (file : Bytes) (size fd : Nat) (memory : Bytes),
    drive.HasOpen fd file size → volume.HasOpen file size → offset + len ≤ size →
      ∀ native,
        Delivered file dst len offset
            (dvdRead drive volume false native dst len offset fd memory) ∧
          Delivered file dst len offset
            (dvdThreadedRead drive volume false native dst len offset fd memory)

/-- What a command can express. -/
structure Expressible (dst len offset : Nat) : Prop where
  buffer : dst % 32 = 0
  length : len % 32 = 0
  reached : offset < 0x400000000
  word : offset % 4 = 0 ∨ len = 0

instance (dst len offset : Nat) : Decidable (Expressible dst len offset) :=
  decidable_of_iff
    (dst % 32 = 0 ∧ len % 32 = 0 ∧ offset < 0x400000000 ∧ (offset % 4 = 0 ∨ len = 0))
    ⟨fun ⟨h₁, h₂, h₃, h₄⟩ => ⟨h₁, h₂, h₃, h₄⟩, fun ⟨h₁, h₂, h₃, h₄⟩ => ⟨h₁, h₂, h₃, h₄⟩⟩

variable {drive : FlippyDrive} {volume : FatFile} {file memory : Bytes}
variable {dst len offset size fd : Nat}

theorem physical_eq (address : Nat) : physical address = address % 0x20000000 :=
  Nat.and_two_pow_sub_one_eq_mod address 29

theorem physical_aligned_iff : physical dst % 32 = 0 ↔ dst % 32 = 0 := by
  rw [physical_eq]
  omega

theorem offset_words (offset : Nat) : offset >>> 2 = offset / 4 :=
  Nat.shiftRight_eq_div_pow offset 2

theorem dvdRead_native (dst len offset fd : Nat) (memory : Bytes) :
    dvdRead drive volume false true dst len offset fd memory =
      oemRead drive dst len offset fd memory :=
  rfl

theorem dvdThreadedRead_native (dst len offset fd : Nat) (memory : Bytes) :
    dvdThreadedRead drive volume false true dst len offset fd memory =
      oemRead drive dst len offset fd memory :=
  rfl

theorem dvdThreadedRead_emulated (dst len offset fd : Nat) (memory : Bytes) :
    dvdThreadedRead drive volume false false dst len offset fd memory =
      dvdRead drive volume false false dst len offset fd memory :=
  rfl

theorem delivered_copyRange
    {source : Bytes} (h : ∀ i < len, source i = file (offset + i)) :
    Delivered file dst len offset (0, copyRange memory (physical dst) len source) := by
  refine ⟨rfl, fun i hi => ?_⟩
  simp only
  rw [copyRange_inside (Nat.le_add_right _ _) (by omega), Nat.add_sub_cancel_left]
  exact h i hi

/-- FatFs delivers every read within the file. -/
theorem dvdRead_emulated
    (h : volume.HasOpen file size) (hsize : offset + len ≤ size) :
    Delivered file dst len offset
      (dvdRead drive volume false false dst len offset fd memory) := by
  have hfound : volume.lseek offset = (0, offset) := h.seeks offset (by omega)
  have hread := h.reads offset len (physical dst) memory hsize
  have heq : dvdRead drive volume false false dst len offset fd memory =
      (0, copyRange memory (physical dst) len fun i => file (offset + i)) := by
    simp only [dvdRead, Bool.false_eq_true, if_false, hfound, hread, ne_eq,
      not_true_eq_false]
  rw [heq]
  exact delivered_copyRange fun _ _ => rfl

/-- The command reads from the last word that starts before the offset. -/
theorem oemRead_eq
    (h : drive.HasOpen fd file size) (hbuffer : dst % 32 = 0) (hlength : len % 32 = 0)
    (hreached : offset < 0x400000000) (hsize : offset + len ≤ size) :
    oemRead drive dst len offset fd memory =
      (0, copyRange memory (physical dst) len fun i => file (offset / 4 * 4 + i)) := by
  have hword : word (offset >>> 2) = offset / 4 := by
    rw [offset_words, word_of_lt (by omega)]
  have hgate : ¬ offset >>> 2 > 0xFFFFFFFF := by
    rw [offset_words]
    omega
  have hreply := h (readCommand dst len offset fd) memory rfl rfl
    (physical_aligned_iff.2 hbuffer) hlength
    (by simp only [readCommand, hword]; omega)
  simp only [readCommand, hword, Nat.mul_comm 4] at hreply
  rw [oemRead, if_neg hgate, readCommand, hword, hreply]
  rfl

theorem oemRead_delivered
    (h : drive.HasOpen fd file size) (hexpr : Expressible dst len offset)
    (hsize : offset + len ≤ size) :
    Delivered file dst len offset (oemRead drive dst len offset fd memory) := by
  rw [oemRead_eq h hexpr.buffer hexpr.length hexpr.reached hsize]
  refine delivered_copyRange fun i hi => ?_
  rcases hexpr.word with hword | hnothing
  · have hstart : offset / 4 * 4 = offset := by omega
    rw [hstart]
  · omega

/-- A drive that refuses what is not aligned. -/
def strictDrive (file : Bytes) : FlippyDrive :=
  fun command memory =>
    if command.mar % 32 = 0 ∧ command.length % 32 = 0 then
      ⟨false, copyRange memory command.mar command.length
        fun i => file (4 * command.cmdbuf1 + i)⟩
    else
      ⟨true, memory⟩

theorem strictDrive_hasOpen (fd : Nat) (file : Bytes) (size : Nat) :
    (strictDrive file).HasOpen fd file size := by
  intro command memory _ _ hmar hlength _
  exact if_pos ⟨hmar, hlength⟩

/-- FatFs without errors. -/
def goodVolume (file : Bytes) : FatFile where
  lseek := fun offset => (0, offset)
  read := fun place len dst memory =>
    (0, copyRange memory dst len fun i => file (place + i))

theorem goodVolume_hasOpen (file : Bytes) (size : Nat) :
    (goodVolume file).HasOpen file size :=
  ⟨fun _ _ => rfl, fun _ _ _ _ _ => rfl⟩

/-- A strict drive with a file that is marked at the offset. -/
theorem oemRead_of_agree (h : ReadsAgree dst len offset) :
    Delivered (markedMedium offset) dst len offset
      (oemRead (strictDrive (markedMedium offset)) dst len offset 1 fun _ => 0) := by
  have hboth := h (strictDrive (markedMedium offset)) (goodVolume (markedMedium offset))
    (markedMedium offset) (offset + len) 1 (fun _ => 0) (strictDrive_hasOpen _ _ _)
    (goodVolume_hasOpen _ _) (Nat.le_refl _) true
  rw [dvdRead_native] at hboth
  exact hboth.1

theorem expressible_of_agree (h : ReadsAgree dst len offset) : Expressible dst len offset := by
  have hdelivered := oemRead_of_agree h
  have hreached : offset < 0x400000000 := by
    by_contra hfar
    have hgate : offset >>> 2 > 0xFFFFFFFF := by
      rw [offset_words]
      omega
    rw [oemRead, if_pos hgate] at hdelivered
    exact absurd hdelivered.1 (by decide)
  have hgate : ¬ offset >>> 2 > 0xFFFFFFFF := by
    rw [offset_words]
    omega
  have haligned : physical dst % 32 = 0 ∧ len % 32 = 0 := by
    by_contra hno
    have hrefused : strictDrive (markedMedium offset) (readCommand dst len offset 1)
        (fun _ => 0) = ⟨true, fun _ => 0⟩ := if_neg hno
    rw [oemRead, if_neg hgate, hrefused] at hdelivered
    exact absurd hdelivered.1 (by decide)
  obtain ⟨hbuffer, hlength⟩ := haligned
  refine ⟨physical_aligned_iff.1 hbuffer, hlength, hreached, ?_⟩
  by_contra hno
  rw [not_or] at hno
  obtain ⟨hword, hsome⟩ := hno
  rw [oemRead_eq (strictDrive_hasOpen 1 _ (offset + len)) (physical_aligned_iff.1 hbuffer)
    hlength hreached (Nat.le_refl _)] at hdelivered
  have hfirst := hdelivered.2 0 (by omega)
  have hbefore : offset / 4 * 4 ≠ offset := by omega
  simp only [Nat.add_zero] at hfirst
  rw [copyRange_inside (Nat.le_refl _) (by omega), Nat.sub_self, Nat.add_zero, markedMedium,
    markedMedium, if_neg hbefore, if_pos rfl] at hfirst
  exact absurd hfirst (by decide)

/--
A read is the same on a FlippyDrive and on FatFs exactly when the read command can
express it: FatFs takes any place and any buffer.
-/
theorem readsAgree_iff (dst len offset : Nat) :
    ReadsAgree dst len offset ↔ Expressible dst len offset := by
  constructor
  · exact expressible_of_agree
  · intro hexpr drive volume file size fd memory hdrive hvolume hsize native
    cases native with
    | true =>
        rw [dvdRead_native, dvdThreadedRead_native]
        exact ⟨oemRead_delivered hdrive hexpr hsize, oemRead_delivered hdrive hexpr hsize⟩
    | false =>
        rw [dvdThreadedRead_emulated]
        exact ⟨dvdRead_emulated hvolume hsize, dvdRead_emulated hvolume hsize⟩

/-- A banner that the table of an image has at an odd place. -/
theorem unaligned_banner_differs : ¬ ReadsAgree 0x81200000 32 0x2442 := by
  intro h
  have hword := (expressible_of_agree h).word
  exact absurd hword (by decide)

end Drives
end Cubiboot
