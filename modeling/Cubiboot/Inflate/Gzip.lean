import Cubiboot.Foundations.Gzip
import Cubiboot.Inflate.Checksum
import Cubiboot.Inflate.Streams

/-!
# `tinfgzip.c`

`start` is counted from `src`.  `tinf_gzip_uncompress` returns for every source and every
size of the destination, stays within both, and accepts exactly the files whose bytes fit.

The fields of the header are skipped one after the other, each by a function that says
where the next one starts. `Skips` relates such a step to the bytes that it passes, and
`FieldStep` to the field they stand for, whether it is there or not.

Results: `skipExtra_spec` and `skipField_spec`, a field; `gunzipFields_ok`, all of them;
`gunzipData_spec`, the data and the two numbers behind them;
`tinfGzipUncompress_returns` and `tinfGzipUncompress_ok`; and
`tinfGzipUncompress_damaged`, that a file is refused whose checksum is that of data
which differ from its own within four bytes in a row.
-/

namespace Cubiboot
namespace Inflate

open BitStream Games Gzip
open Deflate (Deflated)

/-- `FHCRC`, `FEXTRA`, `FNAME` and `FCOMMENT` of `tinf_gzip_flag`. -/
def fhcrc : UInt8 := 2

def fextra : UInt8 := 4

def fname : UInt8 := 8

def fcomment : UInt8 := 16

/-- `read_le32`. -/
def readLe32 (b₀ b₁ b₂ b₃ : UInt8) : Nat :=
  b₀.toNat ||| b₁.toNat <<< 8 ||| b₂.toNat <<< 16 ||| b₃.toNat <<< 24

/-- `read_le16` of the bytes at a place. -/
def readLe16At (src : List UInt8) (i : Nat) : Option Nat := do
  let lo ← src[i]?
  let hi ← src[i + 1]?
  some (readLe16 lo hi)

/-- `read_le32` of the bytes at a place. -/
def readLe32At (src : List UInt8) (i : Nat) : Option Nat := do
  let b₀ ← src[i]?
  let b₁ ← src[i + 1]?
  let b₂ ← src[i + 2]?
  let b₃ ← src[i + 3]?
  some (readLe32 b₀ b₁ b₂ b₃)

/-- Skip extra data if present. -/
def skipExtra (src : List UInt8) (flg : UInt8) (start : Nat) : Outcome Nat :=
  if flg &&& fextra ≠ 0 then
    match readLe16At src start with
    | none => none
    | some xlen =>
        if src.length - 12 < xlen then some (.error .data) else some (.ok (start + (xlen + 2)))
  else some (.ok start)

/-- `do { … } while (*start++)`, with what there is from `start` on. -/
def skipString : Nat → List UInt8 → Except TinfError Nat
  | _, [] => .error .data
  | start, b :: rest => if b ≠ 0 then skipString (start + 1) rest else .ok (start + 1)

/-- Skip file name or file comment if present. -/
def skipField (flag : UInt8) (src : List UInt8) (flg : UInt8) (start : Nat) : Outcome Nat :=
  if flg &&& flag ≠ 0 then some (skipString start (src.drop start)) else some (.ok start)

/-- Check header crc if present. -/
def checkHeader (src : List UInt8) (flg : UInt8) (start : Nat) : Outcome Nat :=
  if flg &&& fhcrc ≠ 0 then
    if src.length - 2 < start then some (.error .data)
    else
      match readLe16At src start with
      | none => none
      | some hcrc =>
          if hcrc ≠ (tinfCrc32 (src.take start)).toNat &&& 0xFFFF then some (.error .data)
          else some (.ok (start + 2))
  else some (.ok start)

/-- The end of `tinf_gzip_uncompress`, once the start of the compressed data is known. -/
def gunzipData (destLen : Nat) (src : List UInt8) (start : Nat) : Outcome (List UInt8) :=
  match readLe32At src (src.length - 4), readLe32At src (src.length - 8) with
  | some dlen, some crc32 =>
      if src.length - start < 8 then some (.error .data)
      else
        match tinfUncompress destLen ((src.drop start).take (src.length - start - 8)) with
        | none => none
        | some (.error _) => some (.error .data)
        | some (.ok out) =>
            if out.length ≠ dlen then some (.error .data)
            else if crc32 ≠ (tinfCrc32 out).toNat then some (.error .data)
            else some (.ok out)
  | _, _ => none

/-- `tinf_gzip_uncompress` past the checks of the bytes that every header has. -/
def gunzipFields (destLen : Nat) (src : List UInt8) (flg : UInt8) : Outcome (List UInt8) :=
  andThen (skipExtra src flg 10) fun start =>
    andThen (skipField fname src flg start) fun start =>
      andThen (skipField fcomment src flg start) fun start =>
        andThen (checkHeader src flg start) fun start => gunzipData destLen src start

/-- `tinf_gzip_uncompress`. -/
def tinfGzipUncompress (destLen : Nat) (src : List UInt8) : Outcome (List UInt8) :=
  if src.length < 18 then some (.error .data)
  else
    match src[0]?, src[1]?, src[2]?, src[3]? with
    | some id₁, some id₂, some method, some flg =>
        if id₁ ≠ 0x1F ∨ id₂ ≠ 0x8B then some (.error .data)
        else if method ≠ 8 then some (.error .data)
        else if flg &&& 0xE0 ≠ 0 then some (.error .data)
        else gunzipFields destLen src flg
    | _, _, _, _ => none

variable {src : List UInt8} {flg : UInt8} {start start' : Nat}

theorem readLe32_eq (b₀ b₁ b₂ b₃ : UInt8) :
    readLe32 b₀ b₁ b₂ b₃ = readLe16 b₀ b₁ + readLe16 b₂ b₃ * 2 ^ 16 := by
  have hhigh : readLe16 b₂ b₃ <<< 16 = b₂.toNat <<< 16 ||| b₃.toNat <<< 24 := by
    rw [readLe16, Nat.shiftLeft_or_distrib, ← Nat.shiftLeft_add]
  rw [readLe32, Nat.or_assoc, ← hhigh, ← readLe16, Nat.or_comm,
    ← Nat.shiftLeft_add_eq_or_of_lt (readLe16_lt b₀ b₁), Nat.shiftLeft_eq, Nat.add_comm]

theorem readLe32_lt (b₀ b₁ b₂ b₃ : UInt8) : readLe32 b₀ b₁ b₂ b₃ < 2 ^ 32 := by
  have hlow := readLe16_lt b₀ b₁
  have hhigh := readLe16_lt b₂ b₃
  rw [readLe32_eq]
  omega

theorem leBytes_readLe32 (b₀ b₁ b₂ b₃ : UInt8) :
    leBytes 4 (readLe32 b₀ b₁ b₂ b₃) = [b₀, b₁, b₂, b₃] := by
  refine bitsOf_inj ?_
  rw [bitsOf_leBytes, readLe32_eq, show 8 * 4 = 16 + 16 from rfl, toBits_join (readLe16_lt b₀ b₁),
    readLe16_bits, readLe16_bits, ← bitsOf_append]
  rfl

theorem drop_eq_cons {i : Nat} (hi : i < src.length) : src.drop i = src[i] :: src.drop (i + 1) :=
  List.drop_eq_getElem_cons hi

/-- Two bytes that are there are a number. -/
theorem readLe16At_spec (src : List UInt8) (i : Nat) (hi : i + 2 ≤ src.length) :
    ∃ n, readLe16At src i = some n ∧ n < 2 ^ 16 ∧ src.drop i = leBytes 2 n ++ src.drop (i + 2) := by
  refine ⟨readLe16 src[i] src[i + 1], ?_, readLe16_lt _ _, ?_⟩
  · rw [readLe16At, List.getElem?_eq_getElem (by omega), List.getElem?_eq_getElem (by omega)]
    rfl
  · rw [leBytes_readLe16, drop_eq_cons (by omega), drop_eq_cons (by omega)]
    rfl

/-- Four bytes that are there are a number. -/
theorem readLe32At_spec (src : List UInt8) (i : Nat) (hi : i + 4 ≤ src.length) :
    ∃ n, readLe32At src i = some n ∧ n < 2 ^ 32 ∧ src.drop i = leBytes 4 n ++ src.drop (i + 4) := by
  refine ⟨readLe32 src[i] src[i + 1] src[i + 2] src[i + 3], ?_, readLe32_lt _ _ _ _, ?_⟩
  · rw [readLe32At, List.getElem?_eq_getElem (by omega), List.getElem?_eq_getElem (by omega),
      List.getElem?_eq_getElem (by omega), List.getElem?_eq_getElem (by omega)]
    rfl
  · rw [leBytes_readLe32, drop_eq_cons (by omega), drop_eq_cons (by omega),
      drop_eq_cons (by omega), drop_eq_cons (by omega)]
    rfl

/-- `bytes` are those from `start` to `start'`. -/
structure Skips (src : List UInt8) (start : Nat) (bytes : List UInt8) (start' : Nat) : Prop where
  drop : src.drop start = bytes ++ src.drop start'
  place : start' = start + bytes.length
  le : start' ≤ src.length

theorem Skips.take {bytes : List UInt8} (h : Skips src start bytes start') :
    src.take start' = src.take start ++ bytes := by
  have hsplit := List.take_append_drop start src
  rw [h.drop, ← List.append_assoc] at hsplit
  have hle := h.le
  have hplace := h.place
  calc src.take start'
      = ((src.take start ++ bytes) ++ src.drop start').take start' := by rw [hsplit]
    _ = src.take start ++ bytes := by
        rw [List.take_left']
        rw [List.length_append, List.length_take]
        omega

theorem Skips.nil (h : start ≤ src.length) : Skips src start [] start :=
  ⟨rfl, rfl, h⟩

/-- The bytes that are there are skipped. -/
theorem Skips.of_append {bytes rest : List UInt8} (h : src.drop start = bytes ++ rest)
    (hstart : start ≤ src.length) : Skips src start bytes (start + bytes.length) := by
  have hlen := congrArg List.length h
  rw [List.length_append, List.length_drop] at hlen
  refine ⟨?_, rfl, by omega⟩
  rw [← List.drop_drop, h, List.drop_left]

theorem Skips.rest {bytes rest : List UInt8} (h : Skips src start bytes start')
    (hsrc : src.drop start = bytes ++ rest) : src.drop start' = rest :=
  List.append_cancel_left (h.drop.symm.trans hsrc)

/-- What a step over a field returns. -/
structure FieldStep (src : List UInt8) (start : Nat) (there : Bool)
    (Fits : Option (List UInt8) → Prop) (bytes : Option (List UInt8) → List UInt8)
    (r : Outcome Nat) : Prop where
  returns : ∃ o, r = some o
  sound : ∀ start', r = some (.ok start') →
    ∃ field, field.isSome = there ∧ Fits field ∧ Skips src start (bytes field) start'
  complete : ∀ field rest, field.isSome = there → Fits field →
    src.drop start = bytes field ++ rest → r = some (.ok (start + (bytes field).length))

/-- Where the flag is clear, there is no field. -/
theorem FieldStep.absent {Fits : Option (List UInt8) → Prop}
    {bytes : Option (List UInt8) → List UInt8} (hfits : Fits none) (hbytes : bytes none = [])
    (h : start ≤ src.length) : FieldStep src start false Fits bytes (some (.ok start)) where
  returns := ⟨_, rfl⟩
  sound := fun start' hok => by
    obtain rfl : start = start' := Except.ok.inj (Option.some.inj hok)
    exact ⟨none, rfl, hfits, hbytes ▸ .nil h⟩
  complete := fun field rest hthere hfield hdrop => by
    obtain rfl : field = none := Option.isNone_iff_eq_none.1 (by simpa using hthere)
    rw [hbytes]
    rfl

theorem skipExtra_spec (flg : UInt8) (hlen : 12 ≤ src.length) :
    FieldStep src 10 (decide (flg &&& fextra ≠ 0)) ExtraValid extraBytes
      (skipExtra src flg 10) := by
  rw [skipExtra]
  by_cases hflag : flg &&& fextra ≠ 0
  · obtain ⟨n, hn, hlt, hdrop⟩ := readLe16At_spec src 10 hlen
    rw [if_pos hflag, hn, decide_eq_true hflag]
    have hbytes : ∀ e rest, e.length < 2 ^ 16 → src.drop 10 = extraBytes (some e) ++ rest →
        e.length = n := by
      intro e rest he hfield
      rw [hdrop, extraBytes, List.append_assoc] at hfield
      exact (leBytes_inj hlt he (List.append_inj hfield (by simp)).1).symm
    by_cases hlong : src.length - 12 < n
    · simp only [if_pos hlong]
      refine ⟨⟨_, rfl⟩, fun start' hok => (by cases hok), fun field rest hthere hfield hsrc => ?_⟩
      obtain ⟨e, rfl⟩ := Option.isSome_iff_exists.1 hthere
      have hen := hbytes e rest (hfield e rfl) hsrc
      have hcount := congrArg List.length hsrc
      rw [List.length_drop, extraBytes, List.length_append, List.length_append,
        leBytes_length] at hcount
      omega
    · simp only [if_neg hlong]
      refine ⟨⟨_, rfl⟩, fun start' hok => ?_, fun field rest hthere hfield hsrc => ?_⟩
      · obtain rfl : 10 + (n + 2) = start' := Except.ok.inj (Option.some.inj hok)
        have hen : ((src.drop 12).take n).length = n := by
          rw [List.length_take, List.length_drop]
          omega
        refine ⟨some ((src.drop 12).take n), rfl, fun e he => ?_, ?_⟩
        · obtain rfl := Option.some.inj he
          rw [hen]
          exact hlt
        · have hfield : src.drop 10 = extraBytes (some ((src.drop 12).take n)) ++
              (src.drop 12).drop n := by
            rw [extraBytes, hen, List.append_assoc, List.take_append_drop, hdrop]
          have hskip := Skips.of_append hfield (by omega)
          rw [extraBytes, List.length_append, leBytes_length, hen, Nat.add_comm 2] at hskip
          rw [extraBytes, hen]
          exact hskip
      · obtain ⟨e, rfl⟩ := Option.isSome_iff_exists.1 hthere
        rw [extraBytes, List.length_append, leBytes_length,
          hbytes e rest (hfield e rfl) hsrc, Nat.add_comm 2]
  · rw [if_neg hflag, decide_eq_false hflag]
    exact .absent (fun _ he => by cases he) rfl (by omega)

/-- A string is skipped to behind its zero. -/
theorem skipString_ok {bytes : List UInt8} :
    skipString start bytes = .ok start' ↔
      ∃ s rest, 0 ∉ s ∧ bytes = s ++ [0] ++ rest ∧ start' = start + (s.length + 1) := by
  induction bytes generalizing start with
  | nil =>
      constructor
      · intro hok
        cases hok
      · rintro ⟨s, rest, _, hnil, _⟩
        simp at hnil
  | cons b bytes ih =>
      rw [skipString]
      by_cases hb : b ≠ 0
      · rw [if_pos hb, ih]
        constructor
        · rintro ⟨s, rest, hs, rfl, rfl⟩
          refine ⟨b :: s, rest, ?_, rfl, ?_⟩
          · exact List.not_mem_cons_of_ne_of_not_mem hb.symm hs
          · rw [List.length_cons]
            omega
        · rintro ⟨s, rest, hs, hbytes, rfl⟩
          cases s with
          | nil =>
              rw [List.nil_append, List.cons_append] at hbytes
              exact absurd (List.cons.inj hbytes).1 hb
          | cons c s =>
              rw [List.cons_append, List.cons_append] at hbytes
              refine ⟨s, rest, fun h => hs (List.mem_cons_of_mem _ h), (List.cons.inj hbytes).2, ?_⟩
              rw [List.length_cons]
              omega
      · rw [if_neg hb]
        rw [not_not] at hb
        subst hb
        constructor
        · intro hok
          obtain rfl := Except.ok.inj hok
          exact ⟨[], bytes, List.not_mem_nil, rfl, rfl⟩
        · rintro ⟨s, rest, hs, hbytes, rfl⟩
          cases s with
          | nil => rfl
          | cons c s =>
              rw [List.cons_append, List.cons_append] at hbytes
              have hc := (List.cons.inj hbytes).1
              exact absurd (hc ▸ List.mem_cons_self) hs

theorem skipField_spec (flag flg : UInt8) (h : start ≤ src.length) :
    FieldStep src start (decide (flg &&& flag ≠ 0)) StringValid stringBytes
      (skipField flag src flg start) := by
  rw [skipField]
  by_cases hflag : flg &&& flag ≠ 0
  · rw [if_pos hflag, decide_eq_true hflag]
    refine ⟨⟨_, rfl⟩, fun start' hok => ?_, fun field rest hthere hfield hsrc => ?_⟩
    · obtain ⟨s, rest, hs, hdrop, rfl⟩ := skipString_ok.1 (Option.some.inj hok)
      have hfield : src.drop start = stringBytes (some s) ++ rest := hdrop
      have hskip := Skips.of_append hfield h
      rw [stringBytes, List.length_append, List.length_singleton] at hskip
      refine ⟨some s, rfl, fun t ht => ?_, hskip⟩
      obtain rfl := Option.some.inj ht
      exact hs
    · obtain ⟨s, rfl⟩ := Option.isSome_iff_exists.1 hthere
      have hok : skipString start (src.drop start) = .ok (start + (s.length + 1)) :=
        skipString_ok.2 ⟨s, rest, hfield s rfl, hsrc, rfl⟩
      rw [hok, stringBytes, List.length_append, List.length_singleton]
  · rw [if_neg hflag, decide_eq_false hflag]
    exact .absent (fun _ he => by cases he) rfl h

/-- The checksum of the format is that of the code. -/
theorem tinfCrc32_checksum (data : List UInt8) : (tinfCrc32 data).toNat = checksum data := by
  rw [checksum, ← UInt32.toNat_toBitVec, tinfCrc32_eq]
  rfl

/-- What the check of the header's checksum returns. -/
theorem checkHeader_spec (flg : UInt8) (h : start ≤ src.length) (hlen : 2 ≤ src.length) :
    (∃ o, checkHeader src flg start = some o) ∧
      (∀ start', checkHeader src flg start = some (.ok start') →
        Skips src start (checkBytes (decide (flg &&& fhcrc ≠ 0)) (src.take start)) start') ∧
      ∀ rest, src.drop start =
          checkBytes (decide (flg &&& fhcrc ≠ 0)) (src.take start) ++ rest →
        checkHeader src flg start = some (.ok (start +
          (checkBytes (decide (flg &&& fhcrc ≠ 0)) (src.take start)).length)) := by
  rw [checkHeader]
  by_cases hflag : flg &&& fhcrc ≠ 0
  · rw [if_pos hflag, decide_eq_true hflag, checkBytes, if_pos rfl, leBytes_length]
    by_cases hroom : src.length - 2 < start
    · rw [if_pos hroom]
      refine ⟨⟨_, rfl⟩, fun start' hok => (by cases hok), fun rest hsrc => ?_⟩
      have hcount := congrArg List.length hsrc
      rw [List.length_drop, List.length_append, leBytes_length] at hcount
      omega
    · rw [if_neg hroom]
      obtain ⟨n, hn, hlt, hdrop⟩ := readLe16At_spec src start (by omega)
      have hmask : (tinfCrc32 (src.take start)).toNat &&& 0xFFFF =
          checksum (src.take start) % 2 ^ 16 := by
        rw [tinfCrc32_checksum]
        exact Nat.and_two_pow_sub_one_eq_mod _ 16
      rw [hn, hmask]
      simp only
      by_cases hcrc : n ≠ checksum (src.take start) % 2 ^ 16
      · rw [if_pos hcrc]
        refine ⟨⟨_, rfl⟩, fun start' hok => (by cases hok), fun rest hsrc => ?_⟩
        rw [hdrop] at hsrc
        exact absurd (leBytes_inj hlt (Nat.mod_lt _ (Nat.two_pow_pos 16))
          (List.append_inj hsrc (by simp)).1) hcrc
      · rw [if_neg hcrc]
        rw [not_not] at hcrc
        refine ⟨⟨_, rfl⟩, fun start' hok => ?_, fun rest _ => rfl⟩
        obtain rfl : start + 2 = start' := Except.ok.inj (Option.some.inj hok)
        rw [← hcrc]
        exact ⟨hdrop, by rw [leBytes_length], by omega⟩
  · rw [if_neg hflag, decide_eq_false hflag, checkBytes, if_neg (by decide)]
    refine ⟨⟨_, rfl⟩, fun start' hok => ?_, fun rest _ => rfl⟩
    obtain rfl : start = start' := Except.ok.inj (Option.some.inj hok)
    exact .nil h

/-- What is accepted of the end of a file. -/
theorem gunzipData_spec (destLen : Nat) (hstart : start ≤ src.length) (hlen : 8 ≤ src.length) :
    (∃ o, gunzipData destLen src start = some o) ∧
      ∀ out, gunzipData destLen src start = some (.ok out) ↔
        out.length ≤ destLen ∧ out.length < 2 ^ 32 ∧ ∃ data, Deflated data out ∧
          src.drop start = data ++ (leBytes 4 (checksum out) ++ leBytes 4 out.length) := by
  obtain ⟨dlen, hdlen, hdlt, hddrop⟩ := readLe32At_spec src (src.length - 4) (by omega)
  obtain ⟨crc, hcrc, hclt, hcdrop⟩ := readLe32At_spec src (src.length - 8) (by omega)
  rw [show src.length - 8 + 4 = src.length - 4 by omega, hddrop,
    List.drop_eq_nil_of_le (show src.length ≤ src.length - 4 + 4 by omega), List.append_nil]
    at hcdrop
  simp only [gunzipData, hdlen, hcrc]
  by_cases hroom : src.length - start < 8
  · rw [if_pos hroom]
    refine ⟨⟨_, rfl⟩, fun out => ⟨fun hok => (by cases hok), ?_⟩⟩
    rintro ⟨_, _, data, _, hsrc⟩
    have hcount := congrArg List.length hsrc
    rw [List.length_drop, List.length_append, List.length_append, leBytes_length,
      leBytes_length] at hcount
    omega
  rw [if_neg hroom]
  obtain ⟨body, hbody⟩ : ∃ body, body = (src.drop start).take (src.length - start - 8) := ⟨_, rfl⟩
  have hsplit : src.drop start = body ++ (leBytes 4 crc ++ leBytes 4 dlen) := by
    have htail : (src.drop start).drop (src.length - start - 8) =
        leBytes 4 crc ++ leBytes 4 dlen := by
      rw [List.drop_drop, ← hcdrop]
      congr 1
      omega
    rw [← htail, hbody, List.take_append_drop]
  -- The trailer has eight bytes, so the split is the only one.
  have hunique : ∀ data c d, c < 2 ^ 32 → d < 2 ^ 32 →
      src.drop start = data ++ (leBytes 4 c ++ leBytes 4 d) → data = body ∧ c = crc ∧ d = dlen := by
    intro data c d hc hd hsrc
    rw [hsplit] at hsrc
    obtain ⟨hdata, htail⟩ := List.append_inj' hsrc (by simp)
    obtain ⟨hcbytes, hdbytes⟩ := List.append_inj htail (by simp)
    exact ⟨hdata.symm, (leBytes_inj hclt hc hcbytes).symm, (leBytes_inj hdlt hd hdbytes).symm⟩
  rw [← hbody]
  obtain ⟨r, hr⟩ := tinfUncompress_returns destLen body
  rw [hr]
  match r with
  | .error e =>
      refine ⟨⟨_, rfl⟩, fun out => ⟨fun hok => (by cases hok), ?_⟩⟩
      rintro ⟨hfits, hlt, data, hdefl, hsrc⟩
      obtain ⟨rfl, _, _⟩ := hunique data _ _ (checksum_lt out) hlt hsrc
      have hok := (tinfUncompress_ok destLen data out).2 ⟨hdefl, hfits⟩
      rw [hr] at hok
      cases hok
  | .ok out' =>
      obtain ⟨hdefl', hfits'⟩ := (tinfUncompress_ok destLen body out').1 hr
      have honly : ∀ out, Deflated body out → out.length ≤ destLen → out = out' := by
        intro out hdefl hfits
        have hok := (tinfUncompress_ok destLen body out).2 ⟨hdefl, hfits⟩
        rw [hr] at hok
        exact (Except.ok.inj (Option.some.inj hok)).symm
      simp only
      by_cases hsize : out'.length ≠ dlen
      · rw [if_pos hsize]
        refine ⟨⟨_, rfl⟩, fun out => ⟨fun hok => (by cases hok), ?_⟩⟩
        rintro ⟨hfits, hlt, data, hdefl, hsrc⟩
        obtain ⟨rfl, _, hlength⟩ := hunique data _ _ (checksum_lt out) hlt hsrc
        exact absurd (honly out hdefl hfits ▸ hlength) hsize
      rw [if_neg hsize, tinfCrc32_checksum]
      rw [not_not] at hsize
      by_cases hsumNe : crc ≠ checksum out'
      · rw [if_pos hsumNe]
        refine ⟨⟨_, rfl⟩, fun out => ⟨fun hok => (by cases hok), ?_⟩⟩
        rintro ⟨hfits, hlt, data, hdefl, hsrc⟩
        obtain ⟨rfl, hsame, _⟩ := hunique data _ _ (checksum_lt out) hlt hsrc
        exact absurd (honly out hdefl hfits ▸ hsame).symm hsumNe
      rw [if_neg hsumNe]
      rw [not_not] at hsumNe
      refine ⟨⟨_, rfl⟩, fun out => ⟨fun hok => ?_, ?_⟩⟩
      · obtain rfl : out' = out := Except.ok.inj (Option.some.inj hok)
        exact ⟨hfits', hsize ▸ hdlt, body, hdefl', by rw [hsplit, hsumNe, hsize]⟩
      · rintro ⟨hfits, hlt, data, hdefl, hsrc⟩
        obtain ⟨rfl, _, _⟩ := hunique data _ _ (checksum_lt out) hlt hsrc
        rw [honly out hdefl hfits]

/-- The fields that the flags announce, and the checksum of the header. -/
structure FieldsOf (src : List UInt8) (flg : UInt8) (extra name comment : Option (List UInt8))
    (rest : List UInt8) : Prop where
  hasExtra : extra.isSome = decide (flg &&& fextra ≠ 0)
  hasName : name.isSome = decide (flg &&& fname ≠ 0)
  hasComment : comment.isSome = decide (flg &&& fcomment ≠ 0)
  extraValid : ExtraValid extra
  nameValid : StringValid name
  commentValid : StringValid comment
  bytes : src.drop 10 = extraBytes extra ++ (stringBytes name ++ (stringBytes comment ++
    (checkBytes (decide (flg &&& fhcrc ≠ 0))
      (src.take 10 ++ extraBytes extra ++ stringBytes name ++ stringBytes comment) ++ rest)))

theorem gunzipFields_returns (destLen : Nat) (hlen : 18 ≤ src.length) :
    ∃ o, gunzipFields destLen src flg = some o := by
  have hextra := skipExtra_spec flg (show 12 ≤ src.length by omega)
  refine andThen_returns hextra.returns fun start₁ hok₁ => ?_
  obtain ⟨_, _, _, hskip₁⟩ := hextra.sound start₁ hok₁
  have hname := skipField_spec fname flg hskip₁.le
  refine andThen_returns hname.returns fun start₂ hok₂ => ?_
  obtain ⟨_, _, _, hskip₂⟩ := hname.sound start₂ hok₂
  have hcomment := skipField_spec fcomment flg hskip₂.le
  refine andThen_returns hcomment.returns fun start₃ hok₃ => ?_
  obtain ⟨_, _, _, hskip₃⟩ := hcomment.sound start₃ hok₃
  obtain ⟨hreturns, hsound, _⟩ := checkHeader_spec flg hskip₃.le (by omega)
  refine andThen_returns hreturns fun start₄ hok₄ => ?_
  exact (gunzipData_spec destLen (hsound start₄ hok₄).le (by omega)).1

/-- Where the fields end is where the compressed data are looked for. -/
theorem FieldsOf.starts {extra name comment : Option (List UInt8)} {rest : List UInt8}
    (h : FieldsOf src flg extra name comment rest) (hlen : 18 ≤ src.length) :
    ∃ start₁, skipExtra src flg 10 = some (.ok start₁) ∧
      ∃ start₂, skipField fname src flg start₁ = some (.ok start₂) ∧
        ∃ start₃, skipField fcomment src flg start₂ = some (.ok start₃) ∧
          ∃ start₄, checkHeader src flg start₃ = some (.ok start₄) ∧ start₄ ≤ src.length ∧
            src.drop start₄ = rest := by
  have hdrop₁ := h.bytes
  have hskip₁ := Skips.of_append hdrop₁ (by omega)
  have hdrop₂ := hskip₁.rest hdrop₁
  have hskip₂ := Skips.of_append hdrop₂ hskip₁.le
  have hdrop₃ := hskip₂.rest hdrop₂
  have hskip₃ := Skips.of_append hdrop₃ hskip₂.le
  have hdrop₄ := hskip₃.rest hdrop₃
  rw [← hskip₁.take, ← hskip₂.take, ← hskip₃.take] at hdrop₄
  have hskip₄ := Skips.of_append hdrop₄ hskip₃.le
  have hextra := (skipExtra_spec flg (by omega)).complete extra _ h.hasExtra h.extraValid hdrop₁
  have hname := (skipField_spec fname flg hskip₁.le).complete name _ h.hasName h.nameValid hdrop₂
  have hcomment := (skipField_spec fcomment flg hskip₂.le).complete comment _ h.hasComment
    h.commentValid hdrop₃
  have hcheck := (checkHeader_spec flg hskip₃.le (by omega)).2.2 _ hdrop₄
  exact ⟨_, hextra, _, hname, _, hcomment, _, hcheck, hskip₄.le, hskip₄.rest hdrop₄⟩

theorem gunzipFields_ok {destLen : Nat} {out : List UInt8} (hlen : 18 ≤ src.length) :
    gunzipFields destLen src flg = some (.ok out) ↔
      out.length ≤ destLen ∧ out.length < 2 ^ 32 ∧ ∃ extra name comment data,
        Deflated data out ∧ FieldsOf src flg extra name comment
          (data ++ (leBytes 4 (checksum out) ++ leBytes 4 out.length)) := by
  have hextra := skipExtra_spec flg (show 12 ≤ src.length by omega)
  simp only [gunzipFields, andThen_ok]
  constructor
  · rintro ⟨start₁, hok₁, start₂, hok₂, start₃, hok₃, start₄, hok₄, hok⟩
    obtain ⟨extra, hhas₁, hvalid₁, hskip₁⟩ := hextra.sound start₁ hok₁
    obtain ⟨name, hhas₂, hvalid₂, hskip₂⟩ := (skipField_spec fname flg hskip₁.le).sound start₂ hok₂
    obtain ⟨comment, hhas₃, hvalid₃, hskip₃⟩ :=
      (skipField_spec fcomment flg hskip₂.le).sound start₃ hok₃
    have hskip₄ := (checkHeader_spec flg hskip₃.le (by omega)).2.1 start₄ hok₄
    obtain ⟨hfits, hlt, data, hdefl, hdrop⟩ :=
      ((gunzipData_spec destLen hskip₄.le (by omega)).2 out).1 hok
    refine ⟨hfits, hlt, extra, name, comment, data, hdefl, hhas₁, hhas₂, hhas₃, hvalid₁, hvalid₂,
      hvalid₃, ?_⟩
    rw [hskip₁.drop, hskip₂.drop, hskip₃.drop, hskip₄.drop, hdrop, hskip₃.take, hskip₂.take,
      hskip₁.take]
  · rintro ⟨hfits, hlt, extra, name, comment, data, hdefl, hfields⟩
    obtain ⟨start₁, hok₁, start₂, hok₂, start₃, hok₃, start₄, hok₄, hle, hdrop⟩ :=
      hfields.starts hlen
    exact ⟨start₁, hok₁, start₂, hok₂, start₃, hok₃, start₄, hok₄,
      ((gunzipData_spec destLen hle (by omega)).2 out).2 ⟨hfits, hlt, data, hdefl, hdrop⟩⟩

/-- The flags of a header say which fields there are. -/
theorem flags_spec (h : Header) :
    UInt8.ofNat h.flags &&& 0xE0 = 0 ∧ decide (UInt8.ofNat h.flags &&& fhcrc ≠ 0) = h.checked ∧
      decide (UInt8.ofNat h.flags &&& fextra ≠ 0) = h.extra.isSome ∧
      decide (UInt8.ofNat h.flags &&& fname ≠ 0) = h.name.isSome ∧
      decide (UInt8.ofNat h.flags &&& fcomment ≠ 0) = h.comment.isSome := by
  rw [Header.flags]
  cases h.text <;> cases h.checked <;> cases h.extra.isSome <;> cases h.name.isSome <;>
    cases h.comment.isSome <;> decide

/-- Flags that are accepted are those of the fields they announce. -/
theorem flags_eq (hflg : flg &&& 0xE0 = 0) :
    UInt8.ofNat ((decide (flg &&& 1 ≠ 0)).toNat + 2 * (decide (flg &&& fhcrc ≠ 0)).toNat +
      4 * (decide (flg &&& fextra ≠ 0)).toNat + 8 * (decide (flg &&& fname ≠ 0)).toNat +
        16 * (decide (flg &&& fcomment ≠ 0)).toNat) = flg := by
  have hall : ∀ n < 256, UInt8.ofNat n &&& 0xE0 = 0 →
      UInt8.ofNat ((decide (UInt8.ofNat n &&& 1 ≠ 0)).toNat +
        2 * (decide (UInt8.ofNat n &&& fhcrc ≠ 0)).toNat +
        4 * (decide (UInt8.ofNat n &&& fextra ≠ 0)).toNat +
        8 * (decide (UInt8.ofNat n &&& fname ≠ 0)).toNat +
        16 * (decide (UInt8.ofNat n &&& fcomment ≠ 0)).toNat) = UInt8.ofNat n := by
    decide +kernel
  have h := hall flg.toNat flg.toNat_lt
  rw [UInt8.ofNat_toNat] at h
  exact h hflg

/-- The checks of the bytes that every header has. -/
theorem tinfGzipUncompress_front (destLen : Nat) {id₁ id₂ method : UInt8} {rest : List UInt8}
    (hlen : 18 ≤ (id₁ :: id₂ :: method :: flg :: rest).length) :
    tinfGzipUncompress destLen (id₁ :: id₂ :: method :: flg :: rest) =
      if id₁ = 0x1F ∧ id₂ = 0x8B ∧ method = 8 ∧ flg &&& 0xE0 = 0 then
        gunzipFields destLen (id₁ :: id₂ :: method :: flg :: rest) flg
      else some (.error .data) := by
  rw [tinfGzipUncompress, if_neg (Nat.not_lt.2 hlen)]
  simp only [List.getElem?_cons_zero, List.getElem?_cons_succ]
  by_cases hid : id₁ ≠ 0x1F ∨ id₂ ≠ 0x8B
  · rw [if_pos hid, if_neg]
    rintro ⟨h₁, h₂, _⟩
    exact hid.elim (fun h => h h₁) fun h => h h₂
  rw [if_neg hid]
  rw [not_or, not_not, not_not] at hid
  by_cases hmethod : method ≠ 8
  · rw [if_pos hmethod, if_neg fun h => hmethod h.2.2.1]
  rw [if_neg hmethod]
  by_cases hflg : flg &&& 0xE0 ≠ 0
  · rw [if_pos hflg, if_neg fun h => hflg h.2.2.2]
  rw [if_neg hflg, if_pos ⟨hid.1, hid.2, not_not.1 hmethod, not_not.1 hflg⟩]

theorem exists_front (hlen : 18 ≤ src.length) :
    ∃ id₁ id₂ method flg stamp rest,
      src = id₁ :: id₂ :: method :: flg :: (stamp ++ rest) ∧ stamp.length = 6 := by
  refine ⟨src[0], src[1], src[2], src[3], (src.drop 4).take 6, (src.drop 4).drop 6, ?_, ?_⟩
  · rw [List.take_append_drop, ← drop_eq_cons, ← drop_eq_cons, ← drop_eq_cons, ← drop_eq_cons,
      List.drop_zero]
  · rw [List.length_take, List.length_drop]
    omega

/-- `tinf_gzip_uncompress` stays within `source` and `dest`, and returns. -/
theorem tinfGzipUncompress_returns (destLen : Nat) (src : List UInt8) :
    ∃ r, tinfGzipUncompress destLen src = some r := by
  by_cases hlen : 18 ≤ src.length
  · obtain ⟨id₁, id₂, method, flg, stamp, rest, rfl, _⟩ := exists_front hlen
    rw [tinfGzipUncompress_front destLen hlen]
    split
    · exact gunzipFields_returns destLen hlen
    · exact ⟨_, rfl⟩
  · rw [tinfGzipUncompress, if_pos (Nat.not_le.1 hlen)]
    exact ⟨_, rfl⟩

/-- The fields of a header that has been written. -/
theorem fieldsOf_header {h : Header} {stamp rest more : List UInt8} {id₁ id₂ method : UInt8}
    (hvalid : h.Valid) (hstamp : stamp.length = 6)
    (hsrc : id₁ :: id₂ :: method :: flg :: (stamp ++ rest) = h.bytes ++ more) :
    (id₁ = 0x1F ∧ id₂ = 0x8B ∧ method = 8 ∧ flg &&& 0xE0 = 0) ∧
      FieldsOf (id₁ :: id₂ :: method :: flg :: (stamp ++ rest)) flg h.extra h.name h.comment
        more := by
  have htake : (id₁ :: id₂ :: method :: flg :: (stamp ++ rest)).take 10 =
      id₁ :: id₂ :: method :: flg :: stamp := by
    simp [hstamp]
  have hdrop : (id₁ :: id₂ :: method :: flg :: (stamp ++ rest)).drop 10 = rest := by
    simp [hstamp]
  obtain ⟨hzero, hchecked, hextra, hname, hcomment⟩ := flags_spec h
  simp only [Header.bytes, Header.fields, List.append_assoc, List.cons_append, List.nil_append]
    at hsrc
  injection hsrc with h₁ hsrc
  injection hsrc with h₂ hsrc
  injection hsrc with h₃ hsrc
  injection hsrc with h₄ hsrc
  obtain ⟨rfl, hrest⟩ := List.append_inj hsrc (hstamp.trans hvalid.stamp.symm)
  refine ⟨⟨h₁, h₂, h₃, h₄ ▸ hzero⟩, ?_⟩
  exact {
    hasExtra := by rw [h₄, hextra]
    hasName := by rw [h₄, hname]
    hasComment := by rw [h₄, hcomment]
    extraValid := hvalid.extra
    nameValid := hvalid.name
    commentValid := hvalid.comment
    bytes := by
      rw [hdrop, htake, hrest, h₁, h₂, h₃, h₄, hchecked]
      simp only [List.append_assoc, List.cons_append] }

/-- What a file is, with the bytes that every header has apart. -/
theorem gzipped_iff {stamp rest out : List UInt8} {id₁ id₂ method : UInt8}
    (hstamp : stamp.length = 6) :
    Gzipped (id₁ :: id₂ :: method :: flg :: (stamp ++ rest)) out ↔
      (id₁ = 0x1F ∧ id₂ = 0x8B ∧ method = 8 ∧ flg &&& 0xE0 = 0) ∧
        out.length < 2 ^ 32 ∧ ∃ extra name comment data, Deflated data out ∧
          FieldsOf (id₁ :: id₂ :: method :: flg :: (stamp ++ rest)) flg extra name comment
            (data ++ (leBytes 4 (checksum out) ++ leBytes 4 out.length)) := by
  have htake : (id₁ :: id₂ :: method :: flg :: (stamp ++ rest)).take 10 =
      id₁ :: id₂ :: method :: flg :: stamp := by
    simp [hstamp]
  have hdrop : (id₁ :: id₂ :: method :: flg :: (stamp ++ rest)).drop 10 = rest := by
    simp [hstamp]
  constructor
  · rintro ⟨h, data, hvalid, hdefl, hlt, hsrc⟩
    obtain ⟨hfront, hfields⟩ := fieldsOf_header hvalid hstamp hsrc
    exact ⟨hfront, hlt, h.extra, h.name, h.comment, data, hdefl, hfields⟩
  · rintro ⟨⟨rfl, rfl, rfl, hzero⟩, hlt, extra, name, comment, data, hdefl, hfields⟩
    obtain ⟨h, hh⟩ : ∃ h : Header, h = ⟨decide (flg &&& 1 ≠ 0), decide (flg &&& fhcrc ≠ 0), extra,
        name, comment, stamp⟩ := ⟨_, rfl⟩
    have hflags : UInt8.ofNat h.flags = flg := by
      rw [hh]
      simp only [Header.flags, hfields.hasExtra, hfields.hasName, hfields.hasComment]
      exact flags_eq hzero
    refine ⟨h, data, ⟨?_, ?_, ?_, ?_⟩, hdefl, hlt, ?_⟩
    · rw [hh]
      exact hstamp
    · rw [hh]
      exact hfields.extraValid
    · rw [hh]
      exact hfields.nameValid
    · rw [hh]
      exact hfields.commentValid
    · have hbytes := hfields.bytes
      rw [hdrop, htake] at hbytes
      rw [Header.bytes, Header.fields, hflags, hh, hbytes]
      simp only [List.append_assoc, List.cons_append, List.nil_append]

/-- `tinf_gzip_uncompress` accepts the files whose bytes fit, and writes these bytes. -/
theorem tinfGzipUncompress_ok (destLen : Nat) (src out : List UInt8) :
    tinfGzipUncompress destLen src = some (.ok out) ↔ Gzipped src out ∧ out.length ≤ destLen := by
  by_cases hlen : 18 ≤ src.length
  · obtain ⟨id₁, id₂, method, flg, stamp, rest, rfl, hstamp⟩ := exists_front hlen
    rw [tinfGzipUncompress_front destLen hlen, gzipped_iff hstamp]
    by_cases hfront : id₁ = 0x1F ∧ id₂ = 0x8B ∧ method = 8 ∧ flg &&& 0xE0 = 0
    · rw [if_pos hfront, gunzipFields_ok hlen]
      exact ⟨fun ⟨hfits, h⟩ => ⟨⟨hfront, h⟩, hfits⟩, fun ⟨⟨_, h⟩, hfits⟩ => ⟨hfits, h⟩⟩
    · rw [if_neg hfront]
      exact ⟨fun h => (by cases h), fun ⟨⟨h, _⟩, _⟩ => absurd h hfront⟩
  · rw [tinfGzipUncompress, if_pos (Nat.not_le.1 hlen)]
    refine ⟨fun h => (by cases h), ?_⟩
    rintro ⟨⟨h, data, hvalid, _, _, hsrc⟩, _⟩
    have hcount := congrArg List.length hsrc
    simp only [Header.bytes, Header.fields, List.length_append, List.length_cons, List.length_nil,
      leBytes_length, hvalid.stamp] at hcount
    omega

/-- `tinf_gzip_uncompress` returns, and accepts the files whose bytes fit. -/
theorem tinfGzipUncompress_spec (destLen : Nat) (src : List UInt8) :
    (∃ r, tinfGzipUncompress destLen src = some r) ∧
      ∀ out, tinfGzipUncompress destLen src = some (.ok out) ↔
        Gzipped src out ∧ out.length ≤ destLen :=
  ⟨tinfGzipUncompress_returns destLen src, tinfGzipUncompress_ok destLen src⟩

/-- The fields end at one place. -/
theorem FieldsOf.rest_eq {extra name comment extra' name' comment' : Option (List UInt8)}
    {rest rest' : List UInt8} (h : FieldsOf src flg extra name comment rest)
    (h' : FieldsOf src flg extra' name' comment' rest') (hlen : 18 ≤ src.length) :
    rest = rest' := by
  obtain ⟨start₁, hok₁, start₂, hok₂, start₃, hok₃, start₄, hok₄, _, hdrop⟩ := h.starts hlen
  obtain ⟨start₁', hok₁', start₂', hok₂', start₃', hok₃', start₄', hok₄', _, hdrop'⟩ :=
    h'.starts hlen
  obtain rfl : start₁ = start₁' := by simpa using hok₁.symm.trans hok₁'
  obtain rfl : start₂ = start₂' := by simpa using hok₂.symm.trans hok₂'
  obtain rfl : start₃ = start₃' := by simpa using hok₃.symm.trans hok₃'
  obtain rfl : start₄ = start₄' := by simpa using hok₄.symm.trans hok₄'
  rw [← hdrop, hdrop']

/-- The end of a file is one only. -/
theorem trailer_unique {h : Header} {data out : List UInt8} {sum size : Nat} (hvalid : h.Valid)
    (hsum : sum < 2 ^ 32)
    (hgz : Gzipped (h.bytes ++ (data ++ (leBytes 4 sum ++ leBytes 4 size))) out) :
    Deflated data out ∧ checksum out = sum := by
  have hlen : 18 ≤ (h.bytes ++ (data ++ (leBytes 4 sum ++ leBytes 4 size))).length := by
    simp only [Header.bytes, Header.fields, List.length_append, List.length_cons, List.length_nil,
      leBytes_length, hvalid.stamp]
    omega
  obtain ⟨id₁, id₂, method, flg, stamp, rest, hfront, hstamp⟩ := exists_front hlen
  have hfields := (fieldsOf_header hvalid hstamp hfront.symm).2
  rw [hfront] at hgz hlen
  obtain ⟨_, _, extra, name, comment, data', hdefl, hfields'⟩ := (gzipped_iff hstamp).1 hgz
  obtain ⟨rfl, htail⟩ := List.append_inj' (hfields.rest_eq hfields' hlen) (by simp)
  exact ⟨hdefl, (leBytes_inj hsum (checksum_lt _) (List.append_inj htail (by simp)).1).symm⟩

/-- Where what is unpacked is off by no more than four bytes in a row, it is not accepted. -/
theorem tinfGzipUncompress_damaged (destLen : Nat) {h : Header} {data : List UInt8}
    (before x y after : List UInt8) (hvalid : h.Valid)
    (hdefl : Deflated data (before ++ (x ++ after))) (hlen : x.length = y.length)
    (hshort : x.length ≤ 4) (hne : x ≠ y) (out : List UInt8) :
    tinfGzipUncompress destLen (h.bytes ++ (data ++
      (leBytes 4 (checksum (before ++ (y ++ after))) ++
        leBytes 4 (before ++ (y ++ after)).length))) ≠ some (.ok out) := by
  intro hok
  obtain ⟨hgz, _⟩ := (tinfGzipUncompress_ok _ _ _).1 hok
  obtain ⟨hdefl', hsum⟩ := trailer_unique hvalid (checksum_lt _) hgz
  obtain rfl := deflated_unique hdefl hdefl'
  rw [← tinfCrc32_checksum, ← tinfCrc32_checksum] at hsum
  exact tinfCrc32_burst before after hlen hshort hne (UInt32.toNat_inj.1 hsum)

theorem tinfGzipUncompress_damaged_byte :
    tinfGzipUncompress 100 (plainHeader.bytes ++ (Deflate.stored [1, 2, 3] ++
      (leBytes 4 (checksum [1, 7, 3]) ++ leBytes 4 [1, 7, 3].length))) ≠ some (.ok [1, 7, 3]) :=
  tinfGzipUncompress_damaged 100 [1] [2] [7] [3] plainHeader_valid
    (Deflate.stored_deflated (by decide)) rfl (by decide) (by decide) [1, 7, 3]

end Inflate
end Cubiboot
