import Cubiboot.Foundations.FuelLoop
import Cubiboot.Games.Listing

/-!
# The configuration file

`ini.c`: the text of the file is split in place into strings that are ended by bytes of
0, and `ini_get` walks over these strings.

The memory of `ini_t` is a list of bytes, and what is at `end` is the byte after the
text. An access outside of it has no result.

Each function of the source is a function here, and its loops are recursions on how far
the end is away; the pointers into the text are places in the list. Keys and the names
of sections are compared without regard to case, by `strcmpci`, and a key may be looked
up in one section or in all of them.
-/

namespace Cubiboot
namespace Settings

open Games (toLower)

/-- `*p = v`. -/
def store (data : List UInt8) (p : Nat) (v : UInt8) : Option (List UInt8) :=
  if p < data.length then some (data.set p v) else none

/-- `strcspn`, of the string at `p`. -/
def strcspn (data : List UInt8) (p : Nat) (reject : List UInt8) : Option Nat :=
  (data.drop p).findIdx? fun b => b = 0 ∨ b ∈ reject

/-- The bytes that `trim_back` overwrites. -/
def isBlank (b : UInt8) : Bool :=
  b = 0x20 ∨ b = 0x09 ∨ b = 0x0D

/-- `strcmpci`, of strings without their terminators. -/
def strcmpci : List UInt8 → List UInt8 → Int
  | [], [] => 0
  | [], b :: _ => -(toLower b).toNat
  | a :: _, [] => (toLower a).toNat
  | a :: s, b :: t =>
      let d : Int := (toLower a).toNat - (toLower b).toNat
      if d ≠ 0 then d else strcmpci s t

/-- `trim_back(ini, p - 1)`. -/
def trimBack (data : List UInt8) : Nat → Option (List UInt8)
  | 0 => some data
  | p + 1 =>
      match data[p]? with
      | none => none
      | some b => if isBlank b then trimBack (data.set p 0) p else some data

/-- The loop of `discard_line`, with the bytes up to `end` that are left. -/
def discardLineLoop : Nat → List UInt8 → Nat → Option (List UInt8 × Nat)
  | 0, data, p => some (data, p)
  | left + 1, data, p =>
      match data[p]? with
      | none => none
      | some b =>
          if b = 0x0A then some (data, p) else discardLineLoop left (data.set p 0) (p + 1)

/-- `discard_line`. -/
def discardLine (fin : Nat) (data : List UInt8) (p : Nat) : Option (List UInt8 × Nat) :=
  discardLineLoop (fin - p) data p

/-- The `switch` over an escaped character; `none` is `goto end`. -/
def unescaped (b : UInt8) : Option UInt8 :=
  if b = 0x72 then some 0x0D
  else if b = 0x6E then some 0x0A
  else if b = 0x74 then some 0x09
  else if b = 0x0D ∨ b = 0x0A ∨ b = 0 then none
  else some b

/-- The loop of `unescape_quoted_value`: a turn moves `p` on by one at least. -/
def unescapeLoop (fin : Nat) : Nat → List UInt8 → Nat → Nat → Option (List UInt8 × Nat)
  | 0, data, _, q => some (data, q)
  | turns + 1, data, p, q =>
      if p < fin then
        match data[p]? with
        | none => none
        | some b =>
            if b = 0x22 ∨ b = 0x0D ∨ b = 0x0A then some (data, q)
            else if b = 0x5C then
              match data[p + 1]? with
              | none => none
              | some c =>
                  match unescaped c with
                  | none => some (data, q)
                  | some v =>
                      match store data q v with
                      | none => none
                      | some data => unescapeLoop fin turns data (p + 2) (q + 1)
            else
              match store data q b with
              | none => none
              | some data => unescapeLoop fin turns data (p + 1) (q + 1)
      else some (data, q)

/-- `unescape_quoted_value`. -/
def unescapeQuotedValue (fin : Nat) (data : List UInt8) (p : Nat) : Option (List UInt8 × Nat) :=
  unescapeLoop fin (fin - p) data (p + 1) p

/-- Replace the `=` and the blanks after it, with the bytes of the buffer that are left. -/
def clearEqual : Nat → List UInt8 → Nat → Option (List UInt8 × Nat)
  | 0, _, _ => none
  | left + 1, data, p =>
      match store data p 0 with
      | none => none
      | some data =>
          match data[p + 1]? with
          | none => none
          | some b => if isBlank b then clearEqual left data (p + 1) else some (data, p + 1)

/-- The value of a line that starts at `line_start`, found at `p`. -/
def splitValue (fin : Nat) (data : List UInt8) (lineStart p : Nat) :
    Option (List UInt8 × Nat) :=
  match data[p]? with
  | none => none
  | some b =>
      if b = 0x0A ∨ b = 0 then discardLine fin data lineStart
      else if b = 0x22 then
        match unescapeQuotedValue fin data p with
        | none => none
        | some (data, q) =>
            if q = p then discardLine fin data lineStart else discardLine fin data q
      else
        match strcspn data p [0x0A] with
        | none => none
        | some n => (trimBack data (p + n)).map fun data => (data, p + n)

/-- A line with a key that starts at `line_start`. -/
def splitKey (fin : Nat) (data : List UInt8) (lineStart : Nat) : Option (List UInt8 × Nat) :=
  match strcspn data lineStart [0x3D, 0x0A] with
  | none => none
  | some n =>
      match data[lineStart + n]? with
      | none => none
      | some b =>
          if b ≠ 0x3D then discardLine fin data lineStart
          else
            match trimBack data (lineStart + n) with
            | none => none
            | some data =>
                match clearEqual (data.length - (lineStart + n)) data (lineStart + n) with
                | none => none
                | some (data, p) => splitValue fin data lineStart p

/-- The `switch` of `split_data`. -/
def splitItem (fin : Nat) (data : List UInt8) (p : Nat) (b : UInt8) :
    Option (List UInt8 × Nat) :=
  if b = 0x0D ∨ b = 0x0A ∨ b = 0x09 ∨ b = 0x20 then
    (store data p 0).map fun data => (data, p + 1)
  else if b = 0 then some (data, p + 1)
  else if b = 0x5B then
    match strcspn data p [0x5D, 0x0A] with
    | none => none
    | some n => (store data (p + n) 0).map fun data => (data, p + n)
  else if b = 0x3B then discardLine fin data p
  else splitKey fin data p

/-- One turn of the loop of `split_data`. -/
def splitStep (fin : Nat) (s : List UInt8 × Nat) : Option ((List UInt8 × Nat) ⊕ List UInt8) :=
  if s.2 < fin then
    match s.1[s.2]? with
    | none => none
    | some b => (splitItem fin s.1 s.2 b).map Sum.inl
  else some (.inr s.1)

/-- `split_data`. -/
def splitData (fin fuel : Nat) (data : List UInt8) : Option (List UInt8) :=
  FuelLoop.run (splitStep fin) fuel (data, 0)

/-- `ini_t`. -/
structure Ini where
  data : List UInt8
  fin : Nat

/-- `ini_load`. -/
def iniLoad (text : List UInt8) : Option Ini :=
  (splitData text.length (text.length + 1) (text ++ [0])).map fun data => ⟨data, text.length⟩

/-- The string at `p`. -/
def stringAt (data : List UInt8) (p : Nat) : Option (List UInt8) :=
  (strcspn data p []).map fun n => (data.drop p).take n

/-- The loop of `next`, with the bytes up to `end` that are left. -/
def nextLoop : Nat → List UInt8 → Nat → Option Nat
  | 0, _, p => some p
  | left + 1, data, p =>
      match data[p]? with
      | none => none
      | some b => if b = 0 then nextLoop left data (p + 1) else some p

/-- `next`. -/
def Ini.next (ini : Ini) (p : Nat) : Option Nat :=
  match strcspn ini.data p [] with
  | none => none
  | some n => nextLoop (ini.fin - (p + n)) ini.data (p + n)

/-- `!section || !strcmpci(section, current_section)`. -/
def sectionMatches (sect : Option (List UInt8)) (current : List UInt8) : Bool :=
  match sect with
  | none => true
  | some name => strcmpci name current = 0

/-- One turn of the loop of `ini_get`, with `current_section` and `p`. -/
def getStep (ini : Ini) (sect : Option (List UInt8)) (key : List UInt8)
    (s : List UInt8 × Nat) : Option ((List UInt8 × Nat) ⊕ Option Nat) :=
  if s.2 < ini.fin then
    match ini.data[s.2]? with
    | none => none
    | some b =>
        if b = 0x5B then
          match stringAt ini.data (s.2 + 1), ini.next s.2 with
          | some name, some p => some (.inl (name, p))
          | _, _ => none
        else
          match stringAt ini.data s.2, ini.next s.2 with
          | some name, some val =>
              if sectionMatches sect s.1 ∧ strcmpci name key = 0 then some (.inr (some val))
              else (ini.next val).map fun p => .inl (s.1, p)
          | _, _ => none
  else some (.inr none)

/-- Where the loop of `ini_get` starts. -/
def Ini.first (ini : Ini) : Option Nat :=
  match ini.data[0]? with
  | none => none
  | some b => if b = 0 then ini.next 0 else some 0

/-- `ini_get`: where the value is; a value of `none` is `NULL`. -/
def iniGet (ini : Ini) (sect : Option (List UInt8)) (key : List UInt8) : Option (Option Nat) :=
  match ini.first with
  | none => none
  | some p => FuelLoop.run (getStep ini sect key) (ini.fin + 1) ([], p)

end Settings
end Cubiboot
