import Cubiboot.Disc.GameInfo

/-!
# Searching the FST

`get_banner_offset_slow` on an FST that is well formed.  The type of an entry is a
field of one bit.  On the console the first field of a byte has its high bits, so
that the field is the high bit of the flags, and a directory, whose flags are 1,
has it clear: the search takes directories for files.

Results: `LaidOut.cString`, that a string of the FST is the one that is compared in
memory; `findOpeningBnr_succ`, one pass of the loop; `fst_search_iff`, for which FSTs
the search gives the right answer.
-/

namespace Cubiboot
namespace Disc

open Games Words

/-- A string of these bytes and its end. -/
def CStringAt (bytes : Nat → UInt8) (place : Nat) : List UInt8 → Prop
  | [] => bytes place = 0
  | b :: rest => bytes place = b ∧ b ≠ 0 ∧ CStringAt bytes (place + 1) rest

/-- The number of entries, which entry 0 holds. -/
def fstCount (fst : Nat → UInt8) : Nat := be32 fst 8

/-- The flags of an entry. -/
def fstFlags (fst : Nat → UInt8) (i : Nat) : UInt8 := fst (12 * i)

/-- Where the name of an entry is. -/
def fstNamePlace (fst : Nat → UInt8) (i : Nat) : Nat :=
  12 * fstCount fst + ((fst (12 * i + 1)).toNat * 0x10000 +
    (fst (12 * i + 2)).toNat * 0x100 + (fst (12 * i + 3)).toNat)

/-- The two words of an entry: for a file, its offset and its length. -/
def fstWords (fst : Nat → UInt8) (i : Nat) : BnrInfo :=
  ⟨be32 fst (12 * i + 4), be32 fst (12 * i + 8)⟩

/-- An FST of `size` bytes. -/
structure WellFormedFst (fst : Nat → UInt8) (size : Nat) : Prop where
  root : 0 < fstCount fst
  table : 12 * fstCount fst ≤ size
  limit : size ≤ maxFstSize
  flags : ∀ i < fstCount fst, fstFlags fst i = 0 ∨ fstFlags fst i = 1
  names : ∀ i, 0 < i → i < fstCount fst →
    ∃ name, CStringAt fst (fstNamePlace fst i) name ∧ fstNamePlace fst i + name.length < size

/-- Memory has the FST where it is read to. -/
def LaidOut (ram fst : Nat → UInt8) (size : Nat) : Prop :=
  ∀ i < size, ram (fstScratch + i) = fst i

/-- The name of an entry is `opening.bnr`, ignoring case. -/
def IsOpeningBnr (fst : Nat → UInt8) (i : Nat) : Prop :=
  ∃ name, CStringAt fst (fstNamePlace fst i) name ∧ strcaseEq name openingBnr = true

/-- The first entry after the root that is so. -/
structure FirstEntry (count : Nat) (P : Nat → Prop) (i : Nat) : Prop where
  pos : 0 < i
  lt : i < count
  holds : P i
  first : ∀ j, 0 < j → j < i → ¬ P j

/-- A file with the name of a banner. -/
def IsBannerFile (fst : Nat → UInt8) (i : Nat) : Prop :=
  fstFlags fst i = 0 ∧ IsOpeningBnr fst i

/-- What the search should return. -/
def FstAnswer (fst : Nat → UInt8) (r : BnrInfo) : Prop :=
  (∃ i, FirstEntry (fstCount fst) (IsBannerFile fst) i ∧ r = fstWords fst i) ∨
    (∀ i, 0 < i → i < fstCount fst → ¬ IsBannerFile fst i) ∧ r = ⟨0, 0⟩

variable {bytes fst ram : Nat → UInt8} {place size count i : Nat} {name : List UInt8}

theorem toLower_eq_zero {b : UInt8} (h : toLower b = 0) : b = 0 := by
  simp only [toLower] at h
  split at h
  · rename_i hupper
    obtain ⟨hlow, hhigh⟩ := hupper
    have hsum := congrArg UInt8.toNat h
    rw [UInt8.le_iff_toNat_le] at hlow hhigh
    simp at hsum hlow hhigh
    omega
  · exact h

/-- A string is compared with another as the bytes before its end are. -/
theorem strcasecmpAt_eq
    {literal : List UInt8} (hliteral : ∀ b ∈ literal, b ≠ 0)
    (h : CStringAt bytes place name) :
    strcasecmpAt bytes place literal = strcaseEq name literal := by
  induction literal generalizing place name with
  | nil =>
      cases name with
      | nil =>
          have hend : bytes place = 0 := h
          simp [strcasecmpAt, strcaseEq, hend]
      | cons c rest =>
          obtain ⟨hbyte, hne, _⟩ := h
          simp [strcasecmpAt, strcaseEq, hbyte, hne]
  | cons b literal ih =>
      have hb : toLower b ≠ 0 := fun hc =>
        hliteral b List.mem_cons_self (toLower_eq_zero hc)
      cases name with
      | nil =>
          have hend : bytes place = 0 := h
          have hzero : toLower 0 = 0 := by decide
          have hdiffer : (toLower (bytes place) == toLower b) = false := by
            rw [hend, hzero]
            exact beq_false_of_ne (Ne.symm hb)
          simp [strcasecmpAt, strcaseEq, hdiffer]
      | cons c rest =>
          obtain ⟨hbyte, _, hrest⟩ := h
          have hlater := ih (fun b hb => hliteral b (List.mem_cons_of_mem _ hb)) hrest
          simp only [strcasecmpAt, hbyte, hlater, strcaseEq, List.map_cons, List.cons_beq_cons]

theorem CStringAt.unique
    {other : List UInt8} (h : CStringAt bytes place name) (h' : CStringAt bytes place other) :
    name = other := by
  induction name generalizing place other with
  | nil =>
      cases other with
      | nil => rfl
      | cons c rest => exact absurd (h'.1.symm.trans h) h'.2.1
  | cons b name ih =>
      cases other with
      | nil => exact absurd (h.1.symm.trans h') h.2.1
      | cons c rest =>
          obtain ⟨hb, _, hname⟩ := h
          obtain ⟨hc, _, hrest⟩ := h'
          rw [ih hname hrest, ← hb, ← hc]

/-- A string that is in the FST is in memory. -/
theorem LaidOut.cString
    (hram : LaidOut ram fst size) (h : CStringAt fst place name)
    (hend : place + name.length < size) : CStringAt ram (fstScratch + place) name := by
  induction name generalizing place with
  | nil =>
      have hbyte : fst place = 0 := h
      have hlt : place < size := hend
      exact (hram place hlt).trans hbyte
  | cons b name ih =>
      rw [List.length_cons] at hend
      obtain ⟨hbyte, hne, hrest⟩ := h
      refine ⟨(hram place (by omega)).trans hbyte, hne, ?_⟩
      rw [Nat.add_assoc]
      exact ih hrest (by omega)

theorem openingBnr_nonzero : ∀ b ∈ openingBnr, b ≠ 0 := by
  simp [openingBnr]

/-- The condition in the loop. -/
def FstMatch (ram : Nat → UInt8) (stringTable i : Nat) : Prop :=
  fstFiletype ram i = 0 ∧
    strcasecmpAt ram (stringTable + fstStringOffset ram i) openingBnr = true

instance (ram : Nat → UInt8) (stringTable i : Nat) : Decidable (FstMatch ram stringTable i) :=
  inferInstanceAs (Decidable (_ ∧ _))

theorem findOpeningBnr_succ (ram : Nat → UInt8) (stringTable left i : Nat) :
    findOpeningBnr ram stringTable (left + 1) i =
      if FstMatch ram stringTable i then
        ⟨be32 ram (fstEntry i + 4), be32 ram (fstEntry i + 8)⟩
      else
        findOpeningBnr ram stringTable left (i + 1) :=
  rfl

/-- The loop stops at the first entry that matches. -/
theorem findOpeningBnr_spec (ram : Nat → UInt8) (stringTable left i : Nat) :
    (∃ k, i ≤ k ∧ k < i + left ∧ FstMatch ram stringTable k ∧
        (∀ j, i ≤ j → j < k → ¬ FstMatch ram stringTable j) ∧
        findOpeningBnr ram stringTable left i =
          ⟨be32 ram (fstEntry k + 4), be32 ram (fstEntry k + 8)⟩) ∨
      (∀ k, i ≤ k → k < i + left → ¬ FstMatch ram stringTable k) ∧
        findOpeningBnr ram stringTable left i = ⟨0, 0⟩ := by
  induction left generalizing i with
  | zero =>
      exact Or.inr ⟨fun k hle hlt => by omega, rfl⟩
  | succ left ih =>
      rw [findOpeningBnr_succ]
      by_cases hmatch : FstMatch ram stringTable i
      · rw [if_pos hmatch]
        exact Or.inl ⟨i, Nat.le_refl i, by omega, hmatch, fun j hle hlt => by omega, rfl⟩
      · rw [if_neg hmatch]
        have hhere : ∀ j, i ≤ j → ¬ i + 1 ≤ j → ¬ FstMatch ram stringTable j := by
          intro j hle hno
          have heq : j = i := by omega
          rw [heq]
          exact hmatch
        rcases ih (i + 1) with ⟨k, hle, hlt, hk, hfirst, hr⟩ | ⟨hnone, hr⟩
        · refine Or.inl ⟨k, by omega, by omega, hk, fun j hj hjk => ?_, hr⟩
          by_cases hnext : i + 1 ≤ j
          · exact hfirst j hnext hjk
          · exact hhere j hj hnext
        · refine Or.inr ⟨fun k hk hlt => ?_, hr⟩
          by_cases hnext : i + 1 ≤ k
          · exact hnone k hnext (by omega)
          · exact hhere k hk hnext

theorem WellFormedFst.entry_le (h : WellFormedFst fst size) (hi : i < fstCount fst) :
    12 * i + 12 ≤ size := by
  have htable := h.table
  omega

theorem WellFormedFst.fstEntry_eq (h : WellFormedFst fst size) (hi : i ≤ fstCount fst) :
    fstEntry i = fstScratch + 12 * i := by
  have htable := h.table
  have hlimit := h.limit
  refine word_of_lt ?_
  simp only [fstScratch, maxFstSize] at *
  omega

theorem LaidOut.byte (hram : LaidOut ram fst size) {k : Nat} (hplace : place + k < size) :
    ram (fstScratch + place + k) = fst (place + k) := by
  rw [Nat.add_assoc]
  exact hram (place + k) hplace

theorem LaidOut.be32 (hram : LaidOut ram fst size) (hplace : place + 4 ≤ size) :
    be32 ram (fstScratch + place) = be32 fst place := by
  rw [Disc.be32, hram place (by omega), hram.byte (by omega), hram.byte (by omega),
    hram.byte (by omega), Disc.be32]

theorem fstWords_laidOut
    (h : WellFormedFst fst size) (hram : LaidOut ram fst size) (hi : i < fstCount fst) :
    (⟨be32 ram (fstEntry i + 4), be32 ram (fstEntry i + 8)⟩ : BnrInfo) = fstWords fst i := by
  have hroom := h.entry_le hi
  rw [h.fstEntry_eq (by omega), Nat.add_assoc, Nat.add_assoc, hram.be32 (by omega),
    hram.be32 (by omega), fstWords]

/-- Neither flag has the bit that the field is. -/
theorem fstFiletype_laidOut
    (h : WellFormedFst fst size) (hram : LaidOut ram fst size) (hi : i < fstCount fst) :
    fstFiletype ram i = 0 := by
  have hroom := h.entry_le hi
  have hflags := h.flags i hi
  rw [fstFlags] at hflags
  rw [fstFiletype, h.fstEntry_eq (by omega), hram (12 * i) (by omega)]
  rcases hflags with hfile | hdirectory
  · rw [hfile]
    rfl
  · rw [hdirectory]
    rfl

theorem fstName_laidOut
    (h : WellFormedFst fst size) (hram : LaidOut ram fst size) (hi : i < fstCount fst) :
    fstEntry (fstCount fst) + fstStringOffset ram i = fstScratch + fstNamePlace fst i := by
  have hroom := h.entry_le hi
  rw [h.fstEntry_eq (Nat.le_refl _), fstStringOffset, h.fstEntry_eq (by omega),
    hram.byte (by omega), hram.byte (by omega), hram.byte (by omega), fstNamePlace,
    Nat.add_assoc]

/-- The condition in the loop is about the name alone. -/
theorem fstMatch_laidOut
    (h : WellFormedFst fst size) (hram : LaidOut ram fst size) (hpos : 0 < i)
    (hi : i < fstCount fst) :
    FstMatch ram (fstEntry (fstCount fst)) i ↔ IsOpeningBnr fst i := by
  obtain ⟨name, hname, hend⟩ := h.names i hpos hi
  have hcompare := strcasecmpAt_eq openingBnr_nonzero (hram.cString hname hend)
  rw [← fstName_laidOut h hram hi] at hcompare
  constructor
  · rintro ⟨_, hmatch⟩
    rw [hcompare] at hmatch
    exact ⟨name, hname, hmatch⟩
  · rintro ⟨other, hother, hmatch⟩
    rw [hother.unique hname, ← hcompare] at hmatch
    exact ⟨fstFiletype_laidOut h hram hi, hmatch⟩

/-- The search returns the first entry of the name, be it a file or not. -/
theorem searchFst_laidOut
    (h : WellFormedFst fst size) (hram : LaidOut ram fst size) :
    (∃ i, FirstEntry (fstCount fst) (IsOpeningBnr fst) i ∧ searchFst ram = fstWords fst i) ∨
      (∀ i, 0 < i → i < fstCount fst → ¬ IsOpeningBnr fst i) ∧ searchFst ram = ⟨0, 0⟩ := by
  have hroom := h.entry_le h.root
  have hlimit := h.limit
  have htable := h.table
  have hroot := h.root
  have hcount : be32 ram (fstEntry 0 + 8) = fstCount fst := by
    rw [h.fstEntry_eq (Nat.zero_le _), Nat.add_assoc, hram.be32 (by omega), Nat.mul_zero,
      Nat.zero_add, fstCount]
  have hrange : ¬ (fstEntry (fstCount fst) < 0x81700000 ∨
      fstEntry (fstCount fst) > 0x81800000) := by
    rw [h.fstEntry_eq (Nat.le_refl _)]
    simp only [fstScratch, maxFstSize] at *
    omega
  have hsearch : searchFst ram =
      findOpeningBnr ram (fstEntry (fstCount fst)) (fstCount fst - 1) 1 := by
    simp only [searchFst, hcount]
    exact if_neg hrange
  rw [hsearch]
  rcases findOpeningBnr_spec ram (fstEntry (fstCount fst)) (fstCount fst - 1) 1 with
    ⟨k, hpos, hlt, hk, hfirst, hr⟩ | ⟨hnone, hr⟩
  · have hkcount : k < fstCount fst := by omega
    refine Or.inl ⟨k, ⟨hpos, hkcount, (fstMatch_laidOut h hram hpos hkcount).1 hk, ?_⟩, ?_⟩
    · intro j hj hjk hnamed
      exact hfirst j hj hjk ((fstMatch_laidOut h hram hj (by omega)).2 hnamed)
    · rw [hr, fstWords_laidOut h hram hkcount]
  · refine Or.inr ⟨fun i hpos hi hnamed => ?_, hr⟩
    exact hnone i hpos (by omega) ((fstMatch_laidOut h hram hpos hi).2 hnamed)

theorem FirstEntry.unique
    {P : Nat → Prop} {j : Nat} (hi : FirstEntry count P i) (hj : FirstEntry count P j) :
    i = j := by
  by_contra hne
  rcases Nat.lt_or_gt_of_ne hne with hlt | hgt
  · exact hj.first i hi.pos hlt hi.holds
  · exact hi.first j hj.pos hgt hj.holds

/--
The search is right exactly when the first entry with the name is a file, or a
directory whose two words happen to be the answer.
-/
theorem fst_search_iff
    (fst ram : Nat → UInt8) (size : Nat) (h : WellFormedFst fst size)
    (hram : LaidOut ram fst size) :
    FstAnswer fst (searchFst ram) ↔
      ∀ i, FirstEntry (fstCount fst) (IsOpeningBnr fst) i →
        fstFlags fst i = 0 ∨ FstAnswer fst (fstWords fst i) := by
  constructor
  · intro hanswer i hi
    rcases searchFst_laidOut h hram with ⟨k, hk, hr⟩ | ⟨hnone, _⟩
    · rw [hr, hk.unique hi] at hanswer
      exact Or.inr hanswer
    · exact absurd hi.holds (hnone i hi.pos hi.lt)
  · intro hall
    rcases searchFst_laidOut h hram with ⟨k, hk, hr⟩ | ⟨hnone, hr⟩
    · rw [hr]
      rcases hall k hk with hfile | hanswer
      · exact Or.inl ⟨k, ⟨hk.pos, hk.lt, ⟨hfile, hk.holds⟩,
          fun j hj hjk hc => hk.first j hj hjk hc.2⟩, rfl⟩
      · exact hanswer
    · exact Or.inr ⟨fun i hpos hi hc => hnone i hpos hi hc.2, hr⟩

/-- Bytes from 0 on. -/
def bytesOf (l : List UInt8) : Nat → UInt8 :=
  fun i => l.getD i 0

/-- Memory with an FST. -/
def fstRam (fst : Nat → UInt8) : Nat → UInt8 :=
  fun a => fst (a - fstScratch)

theorem fstRam_laidOut (fst : Nat → UInt8) (size : Nat) : LaidOut (fstRam fst) fst size := by
  intro i _
  rw [fstRam, Nat.add_sub_cancel_left]

/-- The root, and an entry with these flags and words whose name is the first. -/
def namedEntry (flags : UInt8) : List UInt8 :=
  [1, 0, 0, 0, 0, 0, 0, 0, 0, 0, 0, 3,
    flags, 0, 0, 0, 0, 0, 0, 0, 0, 0, 0, 2,
    0, 0, 0, 0, 0, 0, 0x24, 0x40, 0, 0, 0x19, 0x60] ++ openingBnr ++ [0]

theorem namedEntry_wellFormed
    {flags : UInt8} (hflags : flags = 0 ∨ flags = 1) :
    WellFormedFst (bytesOf (namedEntry flags)) 48 := by
  have hcount : fstCount (bytesOf (namedEntry flags)) = 3 := by
    simp [fstCount, be32, bytesOf, namedEntry]
  have hname : CStringAt (bytesOf (namedEntry flags)) 36 openingBnr := by
    simp [CStringAt, openingBnr, bytesOf, namedEntry]
  constructor
  · rw [hcount]
    decide
  · rw [hcount]
    decide
  · decide
  · intro i hi
    rw [hcount] at hi
    obtain rfl | rfl | rfl : i = 0 ∨ i = 1 ∨ i = 2 := by omega
    · exact Or.inr rfl
    · exact hflags
    · exact Or.inl rfl
  · intro i hpos hi
    rw [hcount] at hi
    have hplace : fstNamePlace (bytesOf (namedEntry flags)) i = 36 := by
      rw [fstNamePlace, hcount]
      obtain rfl | rfl : i = 1 ∨ i = 2 := by omega
      · simp [bytesOf, namedEntry]
      · simp [bytesOf, namedEntry]
    rw [hplace]
    exact ⟨openingBnr, hname, by decide⟩

/-- The banner of a file. -/
theorem fst_search_file :
    FstAnswer (bytesOf (namedEntry 0)) (searchFst (fstRam (bytesOf (namedEntry 0)))) := by
  refine (fst_search_iff (bytesOf (namedEntry 0)) (fstRam (bytesOf (namedEntry 0))) 48
    (namedEntry_wellFormed (Or.inl rfl)) (fstRam_laidOut _ 48)).2 fun i hi => Or.inl ?_
  have hlt : i < 3 := hi.lt
  have hpos := hi.pos
  obtain rfl | rfl : i = 1 ∨ i = 2 := by omega
  · rfl
  · rfl

/-- A directory that has the name is returned in place of the file. -/
theorem directory_taken_for_banner :
    WellFormedFst (bytesOf (namedEntry 1)) 48 ∧
      LaidOut (fstRam (bytesOf (namedEntry 1))) (bytesOf (namedEntry 1)) 48 ∧
        ¬ FstAnswer (bytesOf (namedEntry 1)) (searchFst (fstRam (bytesOf (namedEntry 1)))) := by
  refine ⟨namedEntry_wellFormed (Or.inr rfl), fstRam_laidOut _ 48, ?_⟩
  have hlength : (searchFst (fstRam (bytesOf (namedEntry 1)))).length = 2 := by
    decide +kernel
  rintro (⟨i, hi, hr⟩ | ⟨_, hr⟩)
  · rw [hr] at hlength
    have hlt : i < 3 := hi.lt
    have hpos := hi.pos
    obtain rfl | rfl : i = 1 ∨ i = 2 := by omega
    · exact absurd hi.holds.1 (by decide)
    · exact absurd hlength (by decide)
  · rw [hr] at hlength
    exact absurd hlength (by decide)

end Disc
end Cubiboot
