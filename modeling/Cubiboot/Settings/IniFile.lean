import Cubiboot.Games.Sorting
import Cubiboot.Settings.IniGet

/-!
# Files as they are written

A configuration file as a user writes it: comments, section headers, and keys with a value,
which is plain or in quotes.  What is written under a key is read back.

A key is not empty, has no `=` in it and no blank at its ends, and does not start as a
header or a comment does; a plain value has neither quotes at its start nor blanks at
its ends, and is not empty; a quoted value may have any bytes but 0, with the ones that
end it escaped, and is not empty either. `valueOf` is the first value of a key in a
section, in the order of the lines.

Results: `strings_header`, `strings_plain` and `strings_quoted`, one for each kind of
line; `lookup_file`, by induction on the lines, what is looked up in all of them; and
`ini_round_trip`, that `ini_get` returns what the file says.
-/

namespace Cubiboot
namespace Settings

open Fields Games

/-- A key that can be written. -/
structure IsKey (key : List UInt8) : Prop where
  nonempty : key ≠ []
  bytes : ∀ b ∈ key, inKey b = true
  first : ∀ b t, key = b :: t → isBlank b = false ∧ b ≠ 0x5B ∧ b ≠ 0x3B
  last : trimmed key = key

/-- A value that can be written without quotes. -/
structure IsPlain (value : List UInt8) : Prop where
  nonempty : value ≠ []
  bytes : ∀ b ∈ value, inValue b = true
  first : ∀ b t, value = b :: t → isBlank b = false ∧ b ≠ 0x22
  last : trimmed value = value

/-- Blanks between the parts of a line. -/
abbrev Blanks := { w : List UInt8 // ∀ b ∈ w, isBlank b = true }

/-- What is passed over up to the end of a line. -/
abbrev Ignored := { w : List UInt8 // 0x0A ∉ w }

/-- A key and the blanks around its `=`. -/
structure KeyPart where
  key : List UInt8
  ok : IsKey key
  before : Blanks
  after : Blanks

/-- A line of a file. -/
inductive Line where
  | blank (blanks : Blanks)
  | comment (text : Ignored)
  | header (name : { w : List UInt8 // ∀ b ∈ w, inHeader b = true })
  | plain (key : KeyPart) (value : { w : List UInt8 // IsPlain w }) (blanks : Blanks)
  | quoted (key : KeyPart) (value : { w : List UInt8 // w ≠ [] ∧ 0 ∉ w }) (rest : Ignored)

/-- A byte of a quoted value. -/
def escaped (b : UInt8) : List UInt8 :=
  if b = 0x0D then [0x5C, 0x72]
  else if b = 0x0A then [0x5C, 0x6E]
  else if b = 0x22 ∨ b = 0x5C then [0x5C, b]
  else [b]

/-- The text of a key with its `=`. -/
def KeyPart.text (k : KeyPart) : List UInt8 :=
  k.key ++ (k.before.1 ++ 0x3D :: k.after.1)

/-- The text of a line. -/
def Line.text : Line → List UInt8
  | .blank blanks => blanks.1 ++ [0x0A]
  | .comment text => 0x3B :: (text.1 ++ [0x0A])
  | .header name => 0x5B :: (name.1 ++ [0x5D, 0x0A])
  | .plain key value blanks => key.text ++ (value.1 ++ (blanks.1 ++ [0x0A]))
  | .quoted key value rest =>
      key.text ++ 0x22 :: (value.1.flatMap escaped ++ 0x22 :: (rest.1 ++ [0x0A]))

/-- The text of a file. -/
def fileText (lines : List Line) : List UInt8 :=
  lines.flatMap Line.text

/-- A string that can be passed to `ini_get`. -/
abbrev CString := { w : List UInt8 // 0 ∉ w }

/-- A section is looked into, whatever the case of its name. -/
def inSection (sect : Option CString) (current : List UInt8) : Bool :=
  sect.all fun name => strcaseEq name.1 current

/-- The value of a key in a file, below the name of a section. -/
def valueOf (sect : Option CString) (key : CString) :
    List UInt8 → List Line → Option (List UInt8)
  | _, [] => none
  | current, .blank _ :: lines => valueOf sect key current lines
  | current, .comment _ :: lines => valueOf sect key current lines
  | _, .header name :: lines => valueOf sect key name.1 lines
  | current, .plain k value _ :: lines =>
      if inSection sect current ∧ strcaseEq k.key key.1 then some value.1
      else valueOf sect key current lines
  | current, .quoted k value _ :: lines =>
      if inSection sect current ∧ strcaseEq k.key key.1 then some value.1
      else valueOf sect key current lines

/-- Strings compare equal when they differ only in case. -/
theorem strcmpci_eq_zero {a b : List UInt8} (ha : 0 ∉ a) (hb : 0 ∉ b) :
    strcmpci a b = 0 ↔ strcaseEq a b = true := by
  rw [strcaseEq, beq_iff_eq]
  induction a generalizing b with
  | nil =>
      cases b with
      | nil => simp [strcmpci]
      | cons c t =>
          have hc : toLower c ≠ 0 := fun h =>
            hb ((toLower_eq_zero c).1 h ▸ List.mem_cons_self ..)
          have hnat : (toLower c).toNat ≠ 0 := fun h => hc (UInt8.toNat_inj.1 h)
          simp only [strcmpci, List.map_nil, List.map_cons]
          refine iff_of_false ?_ (List.cons_ne_nil _ _).symm
          omega
  | cons d s ih =>
      have hd : toLower d ≠ 0 := fun h => ha ((toLower_eq_zero d).1 h ▸ List.mem_cons_self ..)
      have hnat : (toLower d).toNat ≠ 0 := fun h => hd (UInt8.toNat_inj.1 h)
      cases b with
      | nil =>
          simp only [strcmpci, List.map_nil, List.map_cons]
          refine iff_of_false ?_ (List.cons_ne_nil _ _)
          omega
      | cons c t =>
          have hrest := ih (fun h => ha (List.mem_cons_of_mem d h))
            (b := t) (fun h => hb (List.mem_cons_of_mem c h))
          rw [List.map_cons, List.map_cons, List.cons.injEq, ← hrest, ← UInt8.toNat_inj]
          simp only [strcmpci]
          split
          · rename_i hne
            refine iff_of_false hne fun h => hne ?_
            omega
          · rename_i heq
            have hsame : (toLower d).toNat = (toLower c).toNat := by omega
            simp [hsame]

theorem sectionMatches_eq (sect : Option CString) {current : List UInt8} (h : 0 ∉ current) :
    sectionMatches (sect.map Subtype.val) current = inSection sect current := by
  cases sect with
  | none => rfl
  | some name =>
      rw [inSection, Option.map_some, sectionMatches, Option.all_some, Bool.eq_iff_iff,
        decide_eq_true_iff]
      exact strcmpci_eq_zero name.2 h

theorem inKey_of_blank {b : UInt8} (h : isBlank b = true) : inKey b = true := by
  simp only [isBlank, Bool.decide_or, Bool.or_eq_true, decide_eq_true_eq] at h
  rcases h with rfl | rfl | rfl <;> rfl

theorem inValue_of_blank {b : UInt8} (h : isBlank b = true) : inValue b = true := by
  simp only [isBlank, Bool.decide_or, Bool.or_eq_true, decide_eq_true_eq] at h
  rcases h with rfl | rfl | rfl <;> rfl

/-- Blanks after a string are trimmed. -/
theorem trimmed_blanks {w blanks : List UInt8} (hw : trimmed w = w)
    (hblanks : ∀ b ∈ blanks, isBlank b = true) : trimmed (w ++ blanks) = w := by
  induction blanks using List.reverseRecOn with
  | nil => rw [List.append_nil, hw]
  | append_singleton blanks b ih =>
      have hb := hblanks b (List.mem_append_right _ (List.mem_singleton_self b))
      rw [← List.append_assoc, trimmed, List.rdropWhile_concat_pos _ _ _ hb]
      exact ih fun c hc => hblanks c (List.mem_append_left _ hc)

/-- A quoted value is read back. -/
theorem unquote_escaped {value : List UInt8} (hvalue : 0 ∉ value) (rest : List UInt8) :
    unquote (value.flatMap escaped ++ 0x22 :: rest) = value := by
  induction value with
  | nil => exact unquote_end (.inl rfl) rest
  | cons b value ih =>
      have hrest := ih fun hmem => hvalue (List.mem_cons_of_mem b hmem)
      have hzero : b ≠ 0 := fun h => hvalue (h ▸ List.mem_cons_self ..)
      rw [List.flatMap_cons, List.append_assoc]
      by_cases hcr : b = 0x0D
      · subst hcr
        exact (unquote_escape (c := 0x72) rfl _).trans (congrArg _ hrest)
      · by_cases hlf : b = 0x0A
        · subst hlf
          exact (unquote_escape (c := 0x6E) rfl _).trans (congrArg _ hrest)
        · by_cases hslash : b = 0x22 ∨ b = 0x5C
          · have hchar : escaped b = [0x5C, b] := by
              rw [escaped, if_neg hcr, if_neg hlf, if_pos hslash]
            have hself : unescaped b = some b := by
              rcases hslash with rfl | rfl <;> rfl
            rw [hchar]
            exact (unquote_escape hself _).trans (congrArg _ hrest)
          · have hchar : escaped b = [b] := by
              rw [escaped, if_neg hcr, if_neg hlf, if_neg hslash]
            simp only [not_or] at hslash
            rw [hchar]
            refine (unquote_char ?_ hslash.2 _).trans (congrArg _ hrest)
            simp only [not_or]
            exact ⟨hslash.1, hcr, hlf⟩

variable {rest : List UInt8}

theorem strings_newline (rest : List UInt8) : strings (0x0A :: rest) = strings rest := by
  rw [strings_cons]
  rfl

theorem strings_blanks {blanks : List UInt8} (h : ∀ b ∈ blanks, isBlank b = true)
    (rest : List UInt8) : strings (blanks ++ rest) = strings rest := by
  induction blanks with
  | nil => rfl
  | cons b blanks ih =>
      have hb := h b (List.mem_cons_self ..)
      have hitem : item b (blanks ++ rest) = ([], blanks ++ rest) := by
        simp only [isBlank, Bool.decide_or, Bool.or_eq_true, decide_eq_true_eq] at hb
        rw [item, if_pos]
        rcases hb with rfl | rfl | rfl <;> decide
      rw [List.cons_append, strings_cons, hitem]
      exact ih fun c hc => h c (List.mem_cons_of_mem b hc)

theorem afterLine_ignored {w : List UInt8} (hw : 0x0A ∉ w) (rest : List UInt8) :
    afterLine (w ++ 0x0A :: rest) = 0x0A :: rest := by
  rw [afterLine_append hw]
  rfl

theorem strings_header {name : List UInt8} (hname : ∀ b ∈ name, inHeader b = true)
    (rest : List UInt8) :
    strings (0x5B :: (name ++ 0x5D :: 0x0A :: rest)) = (0x5B :: name) :: strings rest := by
  have htake : (name ++ 0x5D :: 0x0A :: rest).takeWhile inHeader = name := by
    rw [List.takeWhile_append_of_pos hname, List.takeWhile_cons_of_neg (by decide),
      List.append_nil]
  have hdrop : (name ++ 0x5D :: 0x0A :: rest).dropWhile inHeader = 0x5D :: 0x0A :: rest := by
    rw [List.dropWhile_append_of_pos hname, List.dropWhile_cons_of_neg (by decide)]
  have hitem : item 0x5B (name ++ 0x5D :: 0x0A :: rest) = ([0x5B :: name], 0x0A :: rest) := by
    rw [item, if_neg (by decide), if_pos rfl, htake, hdrop]
    rfl
  rw [strings_cons, hitem, strings_newline]
  rfl

/-- A key with its `=`, and a value after it. -/
theorem KeyPart.strings_text (k : KeyPart) {value : List UInt8}
    (hvalue : ∀ b t, value = b :: t → isBlank b = false) :
    strings (k.text ++ value) =
      (valueItem k.key value).1 ++ strings (valueItem k.key value).2 := by
  have hbefore : ∀ b ∈ k.key ++ k.before.1, inKey b = true := by
    intro b hb
    rcases List.mem_append.1 hb with hb | hb
    · exact k.ok.bytes b hb
    · exact inKey_of_blank (k.before.2 b hb)
  have hshape : k.text ++ value = (k.key ++ k.before.1) ++ 0x3D :: (k.after.1 ++ value) := by
    simp only [KeyPart.text, List.append_assoc, List.cons_append]
  have htake : (k.text ++ value).takeWhile inKey = k.key ++ k.before.1 := by
    rw [hshape, List.takeWhile_append_of_pos hbefore, List.takeWhile_cons_of_neg (by decide),
      List.append_nil]
  have hdrop : (k.text ++ value).dropWhile inKey = 0x3D :: (k.after.1 ++ value) := by
    rw [hshape, List.dropWhile_append_of_pos hbefore, List.dropWhile_cons_of_neg (by decide)]
  have hblank : (k.after.1 ++ value).dropWhile isBlank = value := by
    rw [List.dropWhile_append_of_pos k.after.2]
    cases hcase : value with
    | nil => rfl
    | cons b t => rw [List.dropWhile_cons_of_neg (by rw [hvalue b t hcase]; decide)]
  have hkey : keyItem (k.text ++ value) = valueItem k.key value := by
    rw [keyItem, hdrop]
    simp only [if_true]
    rw [htake, hblank, trimmed_blanks k.ok.last k.before.2]
  obtain ⟨b, t, hbt⟩ := List.exists_cons_of_ne_nil k.ok.nonempty
  obtain ⟨hb, hheader, hcomment⟩ := k.ok.first b t hbt
  have hin := k.ok.bytes b (hbt ▸ List.mem_cons_self ..)
  obtain ⟨u, hu⟩ : ∃ u, k.text ++ value = b :: u := by
    rw [KeyPart.text, hbt]
    exact ⟨_, rfl⟩
  have hitem : item b u = keyItem (b :: u) := by
    rw [item, if_neg, if_neg hheader, if_neg hcomment]
    rintro (rfl | rfl | rfl | rfl | rfl)
    · cases hb
    · cases hin
    · cases hb
    · cases hb
    · cases hin
  rw [hu, strings_cons, hitem, ← hu, hkey]

theorem KeyPart.no_nul (k : KeyPart) : 0 ∉ k.key := by
  intro hmem
  have hin := k.ok.bytes 0 hmem
  cases hin

theorem KeyPart.fields_key (k : KeyPart) : fields 0 k.key = [k.key] :=
  fields_string k.no_nul k.ok.nonempty

theorem strings_plain (k : KeyPart) {value blanks : List UInt8} (hvalue : IsPlain value)
    (hblanks : ∀ b ∈ blanks, isBlank b = true) (rest : List UInt8) :
    strings (k.text ++ (value ++ (blanks ++ 0x0A :: rest))) =
      k.key :: value :: strings rest := by
  have hin : ∀ b ∈ value ++ blanks, inValue b = true := by
    intro b hb
    rcases List.mem_append.1 hb with hb | hb
    · exact hvalue.bytes b hb
    · exact inValue_of_blank (hblanks b hb)
  obtain ⟨b, t, hbt⟩ := List.exists_cons_of_ne_nil hvalue.nonempty
  obtain ⟨hblank, hquote⟩ := hvalue.first b t hbt
  have hb := hvalue.bytes b (hbt ▸ List.mem_cons_self ..)
  have hend : ¬(b = 0x0A ∨ b = 0) := by
    rintro (rfl | rfl) <;> cases hb
  have hitem : valueItem k.key (value ++ (blanks ++ 0x0A :: rest)) =
      (fields 0 k.key ++ [value], 0x0A :: rest) := by
    have htake : (value ++ (blanks ++ 0x0A :: rest)).takeWhile inValue = value ++ blanks := by
      rw [← List.append_assoc, List.takeWhile_append_of_pos hin,
        List.takeWhile_cons_of_neg (by decide), List.append_nil]
    have hdrop : (value ++ (blanks ++ 0x0A :: rest)).dropWhile inValue = 0x0A :: rest := by
      rw [← List.append_assoc, List.dropWhile_append_of_pos hin,
        List.dropWhile_cons_of_neg (by decide)]
    have hcons : value ++ (blanks ++ 0x0A :: rest) = b :: (t ++ (blanks ++ 0x0A :: rest)) := by
      rw [hbt, List.cons_append]
    rw [hcons] at htake hdrop ⊢
    rw [valueItem, if_neg hend, if_neg hquote, htake, hdrop,
      trimmed_blanks hvalue.last hblanks]
  have hfirst : ∀ c u, value ++ (blanks ++ 0x0A :: rest) = c :: u → isBlank c = false := by
    intro c u hcu
    rw [hbt, List.cons_append] at hcu
    rw [← (List.cons.inj hcu).1]
    exact hblank
  rw [k.strings_text hfirst, hitem, strings_newline, k.fields_key]
  rfl

theorem strings_quoted (k : KeyPart) {value ignored : List UInt8} (hne : value ≠ [])
    (hvalue : 0 ∉ value) (hignored : 0x0A ∉ ignored) (rest : List UInt8) :
    strings (k.text ++ 0x22 ::
        (value.flatMap escaped ++ 0x22 :: (ignored ++ 0x0A :: rest))) =
      k.key :: value :: strings rest := by
  have hline : 0x0A ∉ value.flatMap escaped ++ 0x22 :: ignored := by
    intro hmem
    rcases List.mem_append.1 hmem with hmem | hmem
    · obtain ⟨b, _, hb⟩ := List.mem_flatMap.1 hmem
      rw [escaped] at hb
      split at hb
      · simp at hb
      · split at hb
        · simp at hb
        · split at hb
          · rename_i hlf hslash
            rcases hslash with rfl | rfl <;> simp at hb
          · rename_i hlf _
            exact hlf (List.mem_singleton.1 hb).symm
    · rcases List.mem_cons.1 hmem with hmem | hmem
      · cases hmem
      · exact hignored hmem
  have hafter : afterLine (value.flatMap escaped ++ 0x22 :: (ignored ++ 0x0A :: rest)) =
      0x0A :: rest := by
    have hshape := afterLine_ignored hline rest
    rwa [List.append_assoc, List.cons_append] at hshape
  have hitem : valueItem k.key (0x22 ::
      (value.flatMap escaped ++ 0x22 :: (ignored ++ 0x0A :: rest))) =
      (fields 0 k.key ++ fields 0 value, 0x0A :: rest) := by
    rw [valueItem, if_neg (by decide), if_pos rfl, unquote_escaped hvalue, if_neg hne, hafter]
  have hfirst : ∀ c u, 0x22 :: (value.flatMap escaped ++ 0x22 :: (ignored ++ 0x0A :: rest)) =
      c :: u → isBlank c = false := by
    intro c u hcu
    rw [← (List.cons.inj hcu).1]
    rfl
  rw [k.strings_text hfirst, hitem, strings_newline, k.fields_key, fields_string hvalue hne]
  rfl

theorem KeyPart.head_ne (k : KeyPart) : k.key.head? ≠ some 0x5B := by
  obtain ⟨b, t, hbt⟩ := List.exists_cons_of_ne_nil k.ok.nonempty
  rw [hbt, List.head?_cons]
  simpa using (k.ok.first b t hbt).2.1

/-- The strings of a file have what its lines say. -/
theorem lookup_file (sect : Option CString) (key : CString) {current : List UInt8}
    (hcurrent : 0 ∉ current) (lines : List Line) :
    lookup (sect.map Subtype.val) key.1 current (strings (fileText lines)) =
      valueOf sect key current lines := by
  induction lines generalizing current with
  | nil =>
      rw [fileText, List.flatMap_nil, strings_nil, lookup]
      rfl
  | cons line lines ih =>
      have hmatch : ∀ k : KeyPart,
          sectionMatches (sect.map Subtype.val) current ∧ strcmpci k.key key.1 = 0 ↔
            inSection sect current ∧ strcaseEq k.key key.1 := fun k => by
        rw [sectionMatches_eq sect hcurrent, strcmpci_eq_zero k.no_nul key.2]
      rw [fileText, List.flatMap_cons]
      cases line with
      | blank blanks =>
          rw [Line.text, List.append_assoc, strings_blanks blanks.2, List.singleton_append,
            strings_newline]
          exact ih hcurrent
      | comment text =>
          have hitem : item 0x3B (text.1 ++ 0x0A :: lines.flatMap Line.text) =
              ([], 0x0A :: lines.flatMap Line.text) := by
            rw [item, if_neg (by decide), if_neg (by decide), if_pos rfl,
              afterLine_ignored text.2]
          rw [Line.text, List.cons_append, List.append_assoc, List.singleton_append,
            strings_cons, hitem, strings_newline]
          exact ih hcurrent
      | header name =>
          rw [Line.text, List.cons_append, List.append_assoc]
          simp only [List.cons_append, List.nil_append]
          rw [strings_header name.2, lookup_header]
          exact ih fun hmem => by cases name.2 0 hmem
      | plain k value blanks =>
          have htext : (Line.plain k value blanks).text ++ lines.flatMap Line.text =
              k.text ++ (value.1 ++ (blanks.1 ++ 0x0A :: lines.flatMap Line.text)) := by
            simp only [Line.text, List.append_assoc, List.singleton_append]
          rw [htext, strings_plain k value.2 blanks.2, lookup_setting _ _ _ k.head_ne]
          exact if_congr (hmatch k) rfl (ih hcurrent)
      | quoted k value ignored =>
          have htext : (Line.quoted k value ignored).text ++ lines.flatMap Line.text =
              k.text ++ 0x22 :: (value.1.flatMap escaped ++
                0x22 :: (ignored.1 ++ 0x0A :: lines.flatMap Line.text)) := by
            simp only [Line.text, List.append_assoc, List.cons_append, List.nil_append]
          rw [htext, strings_quoted k value.2.1 value.2.2 ignored.2,
            lookup_setting _ _ _ k.head_ne]
          exact if_congr (hmatch k) rfl (ih hcurrent)

/-- What is written under a key of a file is what `ini_get` returns for it. -/
theorem ini_round_trip (lines : List Line) (sect : Option CString) (key : CString) :
    ∃ ini, iniLoad (fileText lines) = some ini ∧
      ∃ r, iniGet ini (sect.map Subtype.val) key.1 = some r ∧
        r.map (stringAt ini.data) = (valueOf sect key [] lines).map some := by
  obtain ⟨ini, left, hload, hplace, hwords⟩ := iniLoad_place (fileText lines)
  rw [← lookup_file sect key List.not_mem_nil, ← hwords]
  exact ⟨ini, hload, iniGet_finds _ _ hplace⟩

end Settings
end Cubiboot
