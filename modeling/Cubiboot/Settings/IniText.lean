import Mathlib.Data.List.DropRight
import Cubiboot.Foundations.Fields
import Cubiboot.Settings.Ini

/-!
# What a configuration file says

The strings that the text of a configuration file stands for, item by item: section
headers with their bracket, and keys followed by their values. A line without a `=` or a
value stands for nothing.

Results: `strings_cons`, a text as its first item and the others; `item_length`, that an
item takes something of the text; `unquote_escape` and `unquote_end`, a quoted value
byte by byte; and `lookup_header` with `lookup_setting`, the strings one by one.
-/

namespace Cubiboot
namespace Settings

open Fields

/-- A text up to the end of its line. -/
def lineOf (text : List UInt8) : List UInt8 :=
  text.takeWhile (· ≠ 0x0A)

/-- A text from the end of its line on. -/
def afterLine (text : List UInt8) : List UInt8 :=
  text.dropWhile (· ≠ 0x0A)

theorem lineOf_length_add (text : List UInt8) :
    (lineOf text).length + (afterLine text).length = text.length := by
  rw [← List.length_append, lineOf, afterLine, List.takeWhile_append_dropWhile]

theorem lineOf_append {w text : List UInt8} (hw : 0x0A ∉ w) :
    lineOf (w ++ text) = w ++ lineOf text :=
  List.takeWhile_append_of_pos fun b hb => by
    simpa using fun h : b = 0x0A => hw (h ▸ hb)

theorem afterLine_append {w text : List UInt8} (hw : 0x0A ∉ w) :
    afterLine (w ++ text) = afterLine text :=
  List.dropWhile_append_of_pos fun b hb => by
    simpa using fun h : b = 0x0A => hw (h ▸ hb)

/-- What comes after a line starts with its end. -/
theorem afterLine_head (text : List UInt8) :
    afterLine text = [] ∨ ∃ t, afterLine text = 0x0A :: t := by
  induction text with
  | nil => exact .inl rfl
  | cons b text ih =>
      by_cases hb : b = 0x0A
      · exact .inr ⟨text, by simp [afterLine, hb]⟩
      · have htail : afterLine (b :: text) = afterLine text := by simp [afterLine, hb]
        rw [htail]
        exact ih

/-- Nothing after a line is lost with a part of the line. -/
theorem afterLine_drop {text : List UInt8} {n : Nat} (hn : n ≤ (lineOf text).length) :
    afterLine (text.drop n) = afterLine text := by
  induction text generalizing n with
  | nil => simp
  | cons b text ih =>
      cases n with
      | zero => rfl
      | succ n =>
          by_cases hb : b = 0x0A
          · simp [lineOf, hb] at hn
          · have hlen : n ≤ (lineOf text).length := by simpa [lineOf, hb] using hn
            rw [List.drop_succ_cons, ih hlen]
            simp [afterLine, hb]

/-- What a quoted value stands for, from the text after its quote. -/
def unquote : List UInt8 → List UInt8
  | [] => []
  | b :: text =>
      if b = 0x22 ∨ b = 0x0D ∨ b = 0x0A then []
      else if b = 0x5C then
        match text with
        | [] => []
        | c :: rest =>
            match unescaped c with
            | none => []
            | some v => v :: unquote rest
      else b :: unquote text

theorem unquote_end {b : UInt8} (hend : b = 0x22 ∨ b = 0x0D ∨ b = 0x0A) (text : List UInt8) :
    unquote (b :: text) = [] := by
  rw [unquote.eq_def]
  simp only [if_pos hend]

theorem unquote_char {b : UInt8} (hend : ¬(b = 0x22 ∨ b = 0x0D ∨ b = 0x0A)) (hslash : b ≠ 0x5C)
    (text : List UInt8) : unquote (b :: text) = b :: unquote text := by
  rw [unquote.eq_def]
  simp only [if_neg hend, if_neg hslash]

theorem unquote_escape {c v : UInt8} (h : unescaped c = some v) (rest : List UInt8) :
    unquote (0x5C :: c :: rest) = v :: unquote rest := by
  simp [unquote, h]

theorem unquote_stop {c : UInt8} (h : unescaped c = none) (rest : List UInt8) :
    unquote (0x5C :: c :: rest) = [] := by
  simp [unquote, h]

/-- An unescaped character is not the end of a line. -/
theorem unescaped_ne {c v : UInt8} (h : unescaped c = some v) : c ≠ 0x0A := by
  rintro rfl
  cases h

theorem unquote_length (text : List UInt8) : (unquote text).length ≤ (lineOf text).length := by
  fun_induction unquote text with
  | case1 => exact Nat.zero_le _
  | case2 => exact Nat.zero_le _
  | case3 => exact Nat.zero_le _
  | case4 => exact Nat.zero_le _
  | case5 c rest v hv _ ih =>
      have hc := unescaped_ne hv
      simp [lineOf, hc] at ih ⊢
      omega
  | case6 b text hend _ ih =>
      have hb : b ≠ 0x0A := fun h => hend (.inr (.inr h))
      simpa [lineOf, hb] using ih

/-- The bytes of a section header. -/
def inHeader (b : UInt8) : Bool :=
  b ≠ 0 ∧ b ≠ 0x5D ∧ b ≠ 0x0A

/-- The bytes before a `=`. -/
def inKey (b : UInt8) : Bool :=
  b ≠ 0 ∧ b ≠ 0x3D ∧ b ≠ 0x0A

/-- The bytes of a plain value. -/
def inValue (b : UInt8) : Bool :=
  b ≠ 0 ∧ b ≠ 0x0A

/-- A string without the blanks at its end. -/
def trimmed (w : List UInt8) : List UInt8 :=
  w.rdropWhile isBlank

/-- The item whose key is known and whose value comes first in a text. -/
def valueItem (name : List UInt8) : List UInt8 → List (List UInt8) × List UInt8
  | [] => ([], [])
  | b :: text =>
      if b = 0x0A ∨ b = 0 then ([], afterLine (b :: text))
      else if b = 0x22 then
        (if unquote text = [] then [] else fields 0 name ++ fields 0 (unquote text),
          afterLine text)
      else
        (fields 0 name ++ [trimmed ((b :: text).takeWhile inValue)],
          (b :: text).dropWhile inValue)

/-- The item that a line with a key stands for. -/
def keyItem (text : List UInt8) : List (List UInt8) × List UInt8 :=
  match text.dropWhile inKey with
  | [] => ([], [])
  | b :: after =>
      if b = 0x3D then
        valueItem (trimmed (text.takeWhile inKey)) (after.dropWhile isBlank)
      else ([], afterLine (b :: after))

/-- The strings that the first item of a text stands for, and the text after it. -/
def item (b : UInt8) (text : List UInt8) : List (List UInt8) × List UInt8 :=
  if b = 0x0D ∨ b = 0x0A ∨ b = 0x09 ∨ b = 0x20 ∨ b = 0 then ([], text)
  else if b = 0x5B then
    ([b :: text.takeWhile inHeader], (text.dropWhile inHeader).tail)
  else if b = 0x3B then ([], afterLine text)
  else keyItem (b :: text)

theorem afterLine_length (text : List UInt8) : (afterLine text).length ≤ text.length :=
  (List.dropWhile_sublist _).length_le

theorem valueItem_length (name text : List UInt8) :
    (valueItem name text).2.length ≤ text.length := by
  cases text with
  | nil => exact Nat.le_refl 0
  | cons b text =>
      have hline := afterLine_length text
      have hwhole := afterLine_length (b :: text)
      have hvalue : ((b :: text).dropWhile inValue).length ≤ (b :: text).length :=
        (List.dropWhile_sublist _).length_le
      rw [valueItem]
      split
      · exact hwhole
      · split
        · exact Nat.le_succ_of_le hline
        · exact hvalue

/-- A key takes a byte at least. -/
theorem keyItem_length {b : UInt8} (hb : b ≠ 0 ∧ b ≠ 0x0A) (text : List UInt8) :
    (keyItem (b :: text)).2.length ≤ text.length := by
  by_cases heq : b = 0x3D
  · have hdrop : (b :: text).dropWhile inKey = b :: text := by simp [inKey, heq]
    have hvalue := valueItem_length (trimmed ((b :: text).takeWhile inKey))
      (text.dropWhile isBlank)
    have hblank : (text.dropWhile isBlank).length ≤ text.length :=
      (List.dropWhile_sublist _).length_le
    rw [keyItem, hdrop]
    simp only [if_pos heq]
    omega
  · have hdrop : (b :: text).dropWhile inKey = text.dropWhile inKey := by
      simp [inKey, heq, hb.1, hb.2]
    have hkey : (text.dropWhile inKey).length ≤ text.length :=
      (List.dropWhile_sublist _).length_le
    rw [keyItem, hdrop]
    cases hafter : text.dropWhile inKey with
    | nil => exact Nat.zero_le _
    | cons c after =>
        rw [hafter, List.length_cons] at hkey
        have hline := afterLine_length (c :: after)
        have hblank : (after.dropWhile isBlank).length ≤ after.length :=
          (List.dropWhile_sublist _).length_le
        have hvalue := valueItem_length (trimmed ((b :: text).takeWhile inKey))
          (after.dropWhile isBlank)
        rw [List.length_cons] at hline
        simp only
        split
        · omega
        · exact hline.trans hkey

theorem item_length (b : UInt8) (text : List UInt8) : (item b text).2.length ≤ text.length := by
  rw [item]
  split
  · exact Nat.le_refl _
  · split
    · have hdrop : (text.dropWhile inHeader).length ≤ text.length :=
        (List.dropWhile_sublist _).length_le
      rw [List.length_tail]
      omega
    · split
      · exact afterLine_length text
      · rename_i hspace _ _
        exact keyItem_length ⟨fun h => hspace (by simp [h]), fun h => hspace (by simp [h])⟩ text

/-- The strings that a text stands for. -/
def strings : List UInt8 → List (List UInt8)
  | [] => []
  | b :: text => (item b text).1 ++ strings (item b text).2
termination_by text => text.length
decreasing_by exact Nat.lt_succ_of_le (item_length b text)

theorem strings_cons (b : UInt8) (text : List UInt8) :
    strings (b :: text) = (item b text).1 ++ strings (item b text).2 := by
  rw [strings]

@[simp]
theorem strings_nil : strings [] = [] := by
  rw [strings]

/-- What a key has in the strings of a file, below the name of a section. -/
def lookup (sect : Option (List UInt8)) (key : List UInt8) :
    List UInt8 → List (List UInt8) → Option (List UInt8)
  | _, [] => none
  | current, word :: words =>
      if word.head? = some 0x5B then lookup sect key word.tail words
      else
        match words with
        | [] =>
            if sectionMatches sect current ∧ strcmpci word key = 0 then some [] else none
        | value :: words =>
            if sectionMatches sect current ∧ strcmpci word key = 0 then some value
            else lookup sect key current words

theorem lookup_header (sect : Option (List UInt8)) (key current name : List UInt8)
    (words : List (List UInt8)) :
    lookup sect key current ((0x5B :: name) :: words) = lookup sect key name words := by
  rw [lookup.eq_def]
  simp only [List.head?_cons, if_true, List.tail_cons]

theorem lookup_setting (sect : Option (List UInt8)) (key current : List UInt8)
    {word : List UInt8} (hword : word.head? ≠ some 0x5B) (value : List UInt8)
    (words : List (List UInt8)) :
    lookup sect key current (word :: value :: words) =
      if sectionMatches sect current ∧ strcmpci word key = 0 then some value
      else lookup sect key current words := by
  rw [lookup, if_neg hword]

end Settings
end Cubiboot
