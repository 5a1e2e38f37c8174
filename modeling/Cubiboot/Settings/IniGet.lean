import Cubiboot.Settings.IniSplit

/-!
# `ini_get` looks the strings of a text up

`next` goes from one string of the buffer to the next.  The buffer at a place is again
`front ++ (text ++ [0])`, with the last terminator at `end`.

Results: `Place.next`, one step of `next`, and `Place.string`, the string it stops at;
`getStep_header` and `getStep_key`, a turn of the loop of `ini_get`; `iniGet_finds`,
that it returns the first value of the key in the section; `iniLoad_place`, the buffer
of a text that has been loaded; and `ini_reads`, the two together, for any text.
-/

namespace Cubiboot
namespace Settings

open Fields

variable {front text : List UInt8} {sect : Option (List UInt8)} {key : List UInt8}

/-- A place in the buffer, with the text from there up to `end`. -/
structure Place (ini : Ini) (front text : List UInt8) : Prop where
  data : ini.data = front ++ (text ++ [0])
  fin : ini.fin = front.length + text.length

variable {ini : Ini}

theorem Place.strlen (h : Place ini front text) :
    strcspn ini.data front.length [] = some (firstString 0 text).length := by
  have hp : (fun b : UInt8 => !decide (b = 0 ∨ b ∈ ([] : List UInt8))) =
      fun b => decide (b ≠ 0) := by
    funext b
    simp
  rw [h.data, strcspn_at, hp, firstString]

/-- The string at a place. -/
theorem Place.string (h : Place ini front text) :
    stringAt ini.data front.length = some (firstString 0 text) := by
  have hprefix : (firstString 0 text).length ≤ text.length :=
    (List.takeWhile_sublist _).length_le
  rw [stringAt, h.strlen, Option.map_some, h.data, List.drop_left,
    List.take_append_of_le_length hprefix, firstString]
  exact congrArg some (List.prefix_iff_eq_take.1 (List.takeWhile_prefix _)).symm

/-- A part of the text is behind the place. -/
theorem Place.skip {w : List UInt8} (h : Place ini front (w ++ text)) :
    Place ini (front ++ w) text where
  data := by rw [h.data, List.append_assoc, List.append_assoc]
  fin := by rw [h.fin, List.length_append, List.length_append, Nat.add_assoc]

/-- `next` leaves the terminators behind. -/
theorem nextLoop_at (front text : List UInt8) :
    nextLoop text.length (front ++ (text ++ [0])) front.length =
      some (front.length + (text.takeWhile (· = 0)).length) := by
  induction text generalizing front with
  | nil => rfl
  | cons b text ih =>
      rw [List.length_cons, nextLoop, List.cons_append, byte_at]
      by_cases hb : b = 0
      · have hrest := ih (front ++ [b])
        rw [List.append_assoc, List.length_append, List.length_singleton,
          List.singleton_append] at hrest
        simp only [if_pos hb]
        rw [hrest, List.takeWhile_cons_of_pos (by simpa using hb), List.length_cons]
        refine congrArg some ?_
        omega
      · simp [hb]

/-- `next` goes to the next string, or to `end`. -/
theorem Place.next (h : Place ini front text) :
    ∃ w, text = w ++ afterString 0 text ∧ ini.next front.length = some (front ++ w).length ∧
      Place ini (front ++ w) (afterString 0 text) := by
  obtain ⟨after, hafter⟩ : ∃ after, after = text.dropWhile (· ≠ 0) := ⟨_, rfl⟩
  have hfirst : text = firstString 0 text ++ after := by
    rw [hafter, firstString, List.takeWhile_append_dropWhile]
  have hzeros : after = after.takeWhile (· = 0) ++ afterString 0 text := by
    rw [afterString, ← hafter, List.takeWhile_append_dropWhile]
  have hsplit : text = firstString 0 text ++ after.takeWhile (· = 0) ++ afterString 0 text := by
    rw [List.append_assoc, ← hzeros, ← hfirst]
  have hplace : Place ini (front ++ firstString 0 text) after := by
    refine Place.skip ?_
    rw [← hfirst]
    exact h
  refine ⟨_, hsplit, ?_, Place.skip (by rw [← hsplit]; exact h)⟩
  have hleft : ini.fin - (front.length + (firstString 0 text).length) = after.length := by
    rw [hplace.fin, List.length_append]
    omega
  have hloop := nextLoop_at (front ++ firstString 0 text) after
  rw [← hplace.data, List.length_append] at hloop
  rw [Ini.next, h.strlen]
  simp only [hleft]
  rw [hloop]
  simp only [List.length_append, Nat.add_assoc]

/-- What is left to be looked up is what the key has. -/
def Looking (ini : Ini) (sect : Option (List UInt8)) (key : List UInt8)
    (found : Option (List UInt8)) (s : List UInt8 × Nat) : Prop :=
  ∃ front text, s.2 = front.length ∧ Place ini front text ∧
    (∀ b t, text = b :: t → b ≠ 0) ∧ lookup sect key s.1 (fields 0 text) = found

/-- What is found is at the place that is returned. -/
def Finds (ini : Ini) (found : Option (List UInt8)) (r : Option Nat) : Prop :=
  r.map (stringAt ini.data) = found.map some

theorem firstString_cons {b : UInt8} (hb : b ≠ 0) (t : List UInt8) :
    firstString 0 (b :: t) = b :: firstString 0 t :=
  List.takeWhile_cons_of_pos (by simpa using hb)

/-- A turn at a section header. -/
theorem getStep_header (sect : Option (List UInt8)) (key current : List UInt8)
    {t : List UInt8} (h : Place ini front (0x5B :: t)) :
    ∃ w, getStep ini sect key (current, front.length) =
        some (.inl (firstString 0 t, (front ++ w).length)) ∧
      Place ini (front ++ w) (afterString 0 (0x5B :: t)) ∧
      lookup sect key current (fields 0 (0x5B :: t)) =
        lookup sect key (firstString 0 t) (fields 0 (afterString 0 (0x5B :: t))) := by
  obtain ⟨w, hw, hnext, hplace⟩ := h.next
  have hlt : front.length < ini.fin := by
    rw [h.fin, List.length_cons]
    omega
  have hbyte : ini.data[front.length]? = some 0x5B := by
    rw [h.data]
    exact byte_at front (t ++ [0]) 0x5B
  have hname : stringAt ini.data (front.length + 1) = some (firstString 0 t) := by
    have hskip : Place ini (front ++ [0x5B]) t := Place.skip h
    have hstring := hskip.string
    rwa [List.length_append] at hstring
  refine ⟨w, ?_, hplace, ?_⟩
  · rw [getStep, if_pos hlt]
    simp only [hbyte, if_true, hname, hnext]
  · rw [fields_first (by decide), firstString_cons (by decide), lookup_header]

/-- What a key has, from its string and what comes after it. -/
theorem lookup_key {b : UInt8} {t current : List UInt8} (hb : b ≠ 0) (hheader : b ≠ 0x5B) :
    lookup sect key current (fields 0 (b :: t)) =
      if sectionMatches sect current ∧ strcmpci (firstString 0 (b :: t)) key = 0 then
        some (firstString 0 (afterString 0 (b :: t)))
      else lookup sect key current (fields 0 (afterString 0 (afterString 0 (b :: t)))) := by
  have hhead : (firstString 0 (b :: t)).head? ≠ some 0x5B := by
    rw [firstString_cons hb, List.head?_cons]
    simpa using hheader
  rw [fields_first hb]
  cases hafter : afterString 0 (b :: t) with
  | nil =>
      rw [fields_nil, lookup, if_neg hhead]
      simp only [afterString, firstString, List.takeWhile_nil, List.dropWhile_nil, fields_nil,
        lookup]
      rfl
  | cons c rest =>
      rw [fields_first (afterString_head hafter), lookup, if_neg hhead]

/-- A turn at a key: its value is returned, or passed over. -/
theorem getStep_key (sect : Option (List UInt8)) (key current : List UInt8) {b : UInt8}
    {t : List UInt8} (hb : b ≠ 0) (hheader : b ≠ 0x5B)
    (h : Place ini front (b :: t)) :
    (∃ r, getStep ini sect key (current, front.length) = some (.inr r) ∧
      Finds ini (lookup sect key current (fields 0 (b :: t))) r) ∨
    ∃ w, getStep ini sect key (current, front.length) =
        some (.inl (current, (front ++ w).length)) ∧
      Place ini (front ++ w) (afterString 0 (afterString 0 (b :: t))) ∧
      lookup sect key current (fields 0 (b :: t)) =
        lookup sect key current (fields 0 (afterString 0 (afterString 0 (b :: t)))) := by
  obtain ⟨w, hw, hnext, hplace⟩ := h.next
  obtain ⟨w', hw', hnext', hplace'⟩ := hplace.next
  have hlt : front.length < ini.fin := by
    rw [h.fin, List.length_cons]
    omega
  have hbyte : ini.data[front.length]? = some b := by
    rw [h.data]
    exact byte_at front (t ++ [0]) b
  rw [getStep, if_pos hlt]
  simp only [hbyte, if_neg hheader, h.string, hnext]
  by_cases hmatch : sectionMatches sect current ∧ strcmpci (firstString 0 (b :: t)) key = 0
  · left
    refine ⟨some (front ++ w).length, by rw [if_pos hmatch], ?_⟩
    rw [Finds, lookup_key hb hheader, if_pos hmatch, Option.map_some, hplace.string]
    rfl
  · right
    refine ⟨w ++ w', ?_, ?_, ?_⟩
    · rw [if_neg hmatch, hnext', ← List.append_assoc]
      rfl
    · rw [← List.append_assoc]
      exact hplace'
    · rw [lookup_key hb hheader, if_neg hmatch]

/-- A turn of the loop at a string of the buffer. -/
theorem getStep_spec {found : Option (List UInt8)} {s : List UInt8 × Nat}
    (h : Looking ini sect key found s) :
    (∃ r, getStep ini sect key s = some (.inr r) ∧ Finds ini found r) ∨
      ∃ s', getStep ini sect key s = some (.inl s') ∧ Looking ini sect key found s' ∧
        ini.fin - s'.2 < ini.fin - s.2 := by
  obtain ⟨current, p⟩ := s
  obtain ⟨front, text, hp, hplace, hhead, hfound⟩ := h
  simp only at hp hfound ⊢
  subst hp
  cases text with
  | nil =>
      left
      have hend : ¬ front.length < ini.fin := by
        rw [hplace.fin, List.length_nil]
        omega
      refine ⟨none, by rw [getStep, if_neg hend], ?_⟩
      rw [Finds, ← hfound, fields_nil, lookup]
      rfl
  | cons b t =>
      have hb := hhead b t rfl
      have hfin := hplace.fin
      have hshort := afterString_length hb t
      rw [List.length_cons] at hfin
      by_cases hheader : b = 0x5B
      · subst hheader
        obtain ⟨w, hstep, hnext, hsame⟩ := getStep_header sect key current hplace
        refine .inr ⟨_, hstep, ⟨front ++ w, _, rfl, hnext, fun c u hc => afterString_head hc,
          hsame ▸ hfound⟩, ?_⟩
        have hfin' := hnext.fin
        simp only
        omega
      · rcases getStep_key sect key current hb hheader hplace with
          ⟨r, hstep, hfinds⟩ | ⟨w, hstep, hnext, hsame⟩
        · exact .inl ⟨r, hstep, hfound ▸ hfinds⟩
        · refine .inr ⟨_, hstep, ⟨front ++ w, _, rfl, hnext, fun c u hc => afterString_head hc,
            hsame ▸ hfound⟩, ?_⟩
          have hfin' := hnext.fin
          have hle : (afterString 0 (afterString 0 (b :: t))).length ≤
              (afterString 0 (b :: t)).length :=
            ((List.dropWhile_sublist _).trans (List.dropWhile_sublist _)).length_le
          simp only
          omega

/-- The loop starts at the first string. -/
theorem Place.first (h : Place ini [] text) :
    ∃ w, ini.first = some w.length ∧ Place ini w (text.dropWhile (· = 0)) := by
  cases text with
  | nil =>
      obtain ⟨w, hw, hnext, hplace⟩ := h.next
      have hbyte : ini.data[0]? = some 0 := by
        rw [h.data]
        rfl
      refine ⟨w, ?_, hplace⟩
      rw [Ini.first, hbyte]
      exact hnext
  | cons b t =>
      have hbyte : ini.data[0]? = some b := by
        rw [h.data]
        rfl
      by_cases hb : b = 0
      · obtain ⟨w, hw, hnext, hplace⟩ := h.next
        have hskip : afterString 0 (b :: t) = (b :: t).dropWhile (· = 0) := by
          rw [afterString, List.dropWhile_cons_of_neg (by simpa using hb)]
        refine ⟨w, ?_, hskip ▸ hplace⟩
        rw [Ini.first, hbyte]
        simp only [if_pos hb]
        exact hnext
      · refine ⟨[], ?_, ?_⟩
        · rw [Ini.first, hbyte]
          simp only [if_neg hb]
          rfl
        · rw [List.dropWhile_cons_of_neg (by simpa using hb)]
          exact h

/-- `ini_get` on a buffer that has been split. -/
theorem iniGet_finds (sect : Option (List UInt8)) (key : List UInt8) (h : Place ini [] text) :
    ∃ r, iniGet ini sect key = some r ∧ Finds ini (lookup sect key [] (fields 0 text)) r := by
  obtain ⟨w, hfirst, hplace⟩ := h.first
  rw [iniGet, hfirst]
  refine FuelLoop.run_meets (Looking ini sect key (lookup sect key [] (fields 0 text)))
    (Finds ini (lookup sect key [] (fields 0 text))) (fun s => ini.fin - s.2)
    (fun s hs => getStep_spec hs) ⟨w, _, rfl, hplace, ?_, ?_⟩ (Nat.lt_succ_of_le (Nat.sub_le _ _))
  · intro b t hb
    have hnot := List.head?_dropWhile_not (fun b => decide (b = 0)) text
    rw [hb] at hnot
    simpa using hnot
  · rw [fields_dropWhile]

theorem Split.place {fin : Nat} {words : List (List UInt8)} {data : List UInt8}
    (h : Split fin words data) :
    ∃ text, Place ⟨data, fin⟩ [] text ∧ Fields.fields 0 text = words := by
  have hlen := h.length
  have hlt : fin < data.length := by omega
  have hended := h.ended
  rw [List.getElem?_eq_getElem hlt, Option.some.injEq] at hended
  have hsplit : data = data.take fin ++ [0] := by
    rw [← hended, List.take_append_getElem, ← hlen, List.take_length]
  refine ⟨data.take fin, ⟨hsplit, ?_⟩, ?_⟩
  · rw [List.length_nil, List.length_take]
    simp only
    omega
  · have hfields := h.fields
    rw [hsplit] at hfields
    exact (fields_append_replicate _ 1).symm.trans hfields

/-- A text that is loaded: the buffer has its strings. -/
theorem iniLoad_place (text : List UInt8) :
    ∃ ini left, iniLoad text = some ini ∧ Place ini [] left ∧ fields 0 left = strings text := by
  obtain ⟨data, hdata, hsplit⟩ := splitData_split text
  obtain ⟨left, hplace, hwords⟩ := hsplit.place
  exact ⟨⟨data, text.length⟩, left, by rw [iniLoad, hdata]; rfl, hplace, hwords⟩

/--
A text is split without an access outside of its buffer, and what `ini_get` returns for a key
is what the strings of the text have for it.
-/
theorem ini_reads (text : List UInt8) (sect : Option (List UInt8)) (key : List UInt8) :
    ∃ ini, iniLoad text = some ini ∧
      ∃ r, iniGet ini sect key = some r ∧
        r.map (stringAt ini.data) = (lookup sect key [] (strings text)).map some := by
  obtain ⟨ini, left, hload, hplace, hwords⟩ := iniLoad_place text
  rw [← hwords]
  exact ⟨ini, hload, iniGet_finds sect key hplace⟩

end Settings
end Cubiboot
