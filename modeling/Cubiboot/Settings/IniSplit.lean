import Cubiboot.Settings.IniBuffer

/-!
# `split_data` splits the text

Each turn of the loop takes one item off the text and leaves its strings behind.

`Takes` says of such a turn which bytes of the text it has gone past, and that what it
leaves of them are the strings of the item, with terminators around them. What has been
split before is left alone: trimming goes back over the item at most, since what comes
before a line ends with a terminator or with the byte that ends a line.

Results: `Keyed.quoted` and `Keyed.plain`, the two kinds of value; `splitKey_takes` and
`header_takes`, the two kinds of item; `splitItem_takes`, a turn; and `splitData_split`,
that the loop ends with the strings of the text in the buffer.
-/

namespace Cubiboot
namespace Settings

open Fields

variable {front text : List UInt8}

/-- All the strings of a part of the buffer are ended. -/
def Closed (front : List UInt8) : Prop :=
  front = [] ∨ ∃ v, front = v ++ [0]

/-- The last string of a part of the buffer is ended by what comes after it. -/
def AtEdge (front text : List UInt8) : Prop :=
  Closed front ∨ text = [] ∨ ∃ t, text = 0x0A :: t ∨ text = 0 :: t

/-- An item has been taken off `text`: its strings are behind, and `left` is what comes next. -/
structure Taken (front text : List UInt8) (it : List (List UInt8) × List UInt8)
    (mid left : List UInt8) : Prop where
  some_byte : mid ≠ []
  lengths : mid.length + left.length = text.length
  fields : fields 0 (front ++ mid) = fields 0 front ++ it.1
  edge : AtEdge (front ++ mid) left
  strings : strings left = strings it.2

/-- A step of the loop takes an item off `text`. -/
def Takes (front text : List UInt8) (it : List (List UInt8) × List UInt8)
    (r : Option (List UInt8 × Nat)) : Prop :=
  ∃ mid left, r = some (front ++ (mid ++ (left ++ [0])), front.length + mid.length) ∧
    Taken front text it mid left

/-- Of the text that an item is taken off, its length counts. -/
theorem Takes.of_length {text' : List UInt8} {it : List (List UInt8) × List UInt8}
    {r : Option (List UInt8 × Nat)} (h : Takes front text it r)
    (hlen : text.length = text'.length) : Takes front text' it r := by
  obtain ⟨mid, left, hr, hmid⟩ := h
  exact ⟨mid, left, hr, { hmid with lengths := hmid.lengths.trans hlen }⟩

theorem Closed.trimmed (h : Closed front) : trimmed front = front := by
  rcases h with rfl | ⟨v, rfl⟩
  · rfl
  · exact List.rdropWhile_concat_neg _ _ _ (by decide)

theorem AtEdge.closed {b : UInt8} (h : AtEdge front (b :: text)) (hb : b ≠ 0 ∧ b ≠ 0x0A) :
    Closed front := by
  rcases h with h | h | ⟨t, h | h⟩
  · exact h
  · cases h
  · exact absurd (List.cons.inj h).1 hb.2
  · exact absurd (List.cons.inj h).1 hb.1

/-- A line that is discarded leaves no strings. -/
theorem discardLine_takes {fin : Nat} {it : List (List UInt8) × List UInt8}
    (hline : lineOf text ≠ []) (hfin : fin = front.length + text.length) (hwords : it.1 = [])
    (hrest : it.2 = afterLine text) :
    Takes front text it (discardLine fin (front ++ (text ++ [0])) front.length) := by
  subst hfin
  have hlen : (List.replicate (lineOf text).length (0 : UInt8)).length =
      (lineOf text).length := List.length_replicate
  refine ⟨List.replicate (lineOf text).length 0, afterLine text, ?_, ?_⟩
  · rw [discardLine_at, hlen]
  · refine ⟨?_, ?_, ?_, ?_, ?_⟩
    · refine List.ne_nil_of_length_pos ?_
      rw [hlen]
      exact List.length_pos_of_ne_nil hline
    · rw [hlen]
      exact lineOf_length_add text
    · rw [fields_append_replicate, hwords, List.append_nil]
    · rcases afterLine_head text with h | ⟨t, h⟩
      · exact .inr (.inl h)
      · exact .inr (.inr ⟨t, .inl h⟩)
    · rw [hrest]

/-- The strings of a key and of what is left of its value. -/
theorem fields_item (hclosed : Closed front) (key value : List UInt8) (m n : Nat) :
    fields 0 (front ++ (key ++ List.replicate (m + 1) 0 ++ (value ++ List.replicate n 0))) =
      fields 0 front ++ (fields 0 key ++ fields 0 value) := by
  have hshape : front ++ (key ++ List.replicate (m + 1) 0 ++ (value ++ List.replicate n 0)) =
      (front ++ key) ++ 0 :: (List.replicate m 0 ++ (value ++ List.replicate n 0)) := by
    simp only [List.append_assoc, List.replicate_succ, List.cons_append]
  rw [hshape, fields_append_cons, fields_replicate_append, fields_append_replicate,
    fields_append (.inl hclosed), List.append_assoc]

/-- The place of a value in the buffer, behind its key. -/
structure Keyed (front key head : List UInt8) : Prop where
  closed : Closed front
  line : 0x0A ∉ head
  shape : ∃ m, head = key ++ List.replicate (m + 1) 0

theorem Keyed.line_ne {key head value : List UInt8} (h : Keyed front key head) :
    lineOf (head ++ value) ≠ [] := by
  obtain ⟨m, hm⟩ := h.shape
  rw [lineOf_append h.line, hm, List.replicate_succ]
  simp

/-- A line whose value is missing is discarded with its key. -/
theorem Keyed.discards {key head value : List UInt8} (h : Keyed front key head) {fin : Nat}
    {it : List (List UInt8) × List UInt8} (hfin : fin = front.length + (head ++ value).length)
    (hwords : it.1 = []) (hrest : it.2 = afterLine value) :
    Takes front (head ++ value) it
      (discardLine fin (front ++ (head ++ (value ++ [0]))) front.length) := by
  rw [← List.append_assoc head]
  exact discardLine_takes h.line_ne hfin hwords (by rw [hrest, afterLine_append h.line])

/-- A quoted value is unescaped in place, and the rest of its line is discarded. -/
theorem Keyed.quoted {key head value : List UInt8} (h : Keyed front key head) {fin : Nat}
    (hfin : fin = front.length + (head ++ 0x22 :: value).length) :
    Takes front (head ++ 0x22 :: value) (valueItem key (0x22 :: value))
      (splitValue fin (front ++ (head ++ (0x22 :: value ++ [0]))) front.length
        (front.length + head.length)) := by
  have hbyte : (front ++ (head ++ (0x22 :: value ++ [0])))[front.length + head.length]? =
      some 0x22 := by
    have hat := byte_at (front ++ head) (value ++ [0]) 0x22
    rwa [List.append_assoc, List.length_append] at hat
  have hitem : valueItem key (0x22 :: value) =
      (if unquote value = [] then [] else fields 0 key ++ fields 0 (unquote value),
        afterLine value) := rfl
  have hafter : afterLine (0x22 :: value) = afterLine value := rfl
  have hline : (unquote value).length ≤ (lineOf (0x22 :: value)).length :=
    (unquote_length value).trans (Nat.le_succ _)
  have hturns : fin - (front.length + head.length) = value.length + 1 := by
    rw [hfin, List.length_append, List.length_cons]
    omega
  have hloop := unescapeLoop_at (value.length + 1) (front ++ head) [0x22] value (by simp)
    (Nat.le_succ _)
  simp only [List.length_append, List.length_singleton, List.append_assoc, List.cons_append,
    List.nil_append] at hloop
  have hfin' : front.length + head.length + (1 + value.length) = fin := by
    rw [hfin, List.length_append, List.length_cons]
    omega
  rw [hfin'] at hloop
  rw [splitValue, hbyte]
  simp only [unescapeQuotedValue, hturns, List.cons_append]
  rw [if_neg (by decide), if_pos trivial, hloop]
  by_cases hempty : unquote value = []
  · have hsame : front.length + head.length + (unquote value).length =
        front.length + head.length := by rw [hempty, List.length_nil, Nat.add_zero]
    simp only [if_pos hsame]
    rw [hempty, List.nil_append, List.length_nil, List.drop_zero]
    refine h.discards hfin ?_ ?_
    · rw [hitem, if_pos hempty]
    · rw [hitem, hafter]
  · have hmoved : ¬ front.length + head.length + (unquote value).length =
        front.length + head.length := by
      have hpos := List.length_pos_of_ne_nil hempty
      omega
    simp only [if_neg hmoved]
    have hrest : ((0x22 :: value).drop (unquote value).length).length =
        value.length + 1 - (unquote value).length := List.length_drop
    have hle := (unquote_length value).trans
      (Nat.le_of_add_right_le (Nat.le_of_eq (lineOf_length_add value)))
    have hdiscard := discardLine_at (front ++ (head ++ unquote value))
      ((0x22 :: value).drop (unquote value).length)
    have hfin'' : (front ++ (head ++ unquote value)).length +
        ((0x22 :: value).drop (unquote value).length).length = fin := by
      rw [hrest, hfin]
      simp only [List.length_append, List.length_cons]
      omega
    rw [hfin''] at hdiscard
    simp only [List.append_assoc, List.length_append, ← Nat.add_assoc] at hdiscard
    rw [hdiscard]
    obtain ⟨m, hm⟩ := h.shape
    have hadd := lineOf_length_add ((0x22 :: value).drop (unquote value).length)
    refine ⟨head ++ (unquote value ++ List.replicate
      (lineOf ((0x22 :: value).drop (unquote value).length)).length 0),
      afterLine ((0x22 :: value).drop (unquote value).length), ?_, ?_, ?_, ?_, ?_, ?_⟩
    · simp only [List.append_assoc, List.length_append, List.length_replicate, Nat.add_assoc]
    · rw [hm]
      simp
    · simp only [List.length_append, List.length_replicate, List.length_cons]
      omega
    · rw [hitem, if_neg hempty, hm]
      exact fields_item h.closed key (unquote value) m _
    · rcases afterLine_head ((0x22 :: value).drop (unquote value).length) with ha | ⟨t, ha⟩
      · exact .inr (.inl ha)
      · exact .inr (.inr ⟨t, .inl ha⟩)
    · rw [afterLine_drop hline]
      rfl

/-- What ends a string of bytes that satisfy `p` is the end of the text or another byte. -/
theorem dropWhile_edge {p : UInt8 → Bool} (hp : ∀ b, p b = false → b = 0 ∨ b = 0x0A)
    (l : List UInt8) : AtEdge front (l.dropWhile p) := by
  cases hl : l.dropWhile p with
  | nil => exact .inr (.inl rfl)
  | cons b t =>
      have hb : p b = false := by
        have hhead := List.head?_dropWhile_not p l
        rw [hl] at hhead
        simpa using hhead
      rcases hp b hb with rfl | rfl
      · exact .inr (.inr ⟨t, .inr rfl⟩)
      · exact .inr (.inr ⟨t, .inl rfl⟩)

theorem strcspn_value (front text : List UInt8) :
    strcspn (front ++ (text ++ [0])) front.length [0x0A] =
      some (text.takeWhile inValue).length := by
  have hp : (fun b : UInt8 => !decide (b = 0 ∨ b ∈ [(0x0A : UInt8)])) = inValue := by
    funext b
    simp [inValue]
  rw [strcspn_at, hp]

/-- A plain value ends with its line, and is trimmed. -/
theorem Keyed.plain {key head value : List UInt8} {b : UInt8} (h : Keyed front key head)
    {fin : Nat} (hend : ¬(b = 0x0A ∨ b = 0)) (hquote : b ≠ 0x22) (hblank : isBlank b = false) :
    Takes front (head ++ b :: value) (valueItem key (b :: value))
      (splitValue fin (front ++ (head ++ (b :: value ++ [0]))) front.length
        (front.length + head.length)) := by
  have hbyte : (front ++ (head ++ (b :: value ++ [0])))[front.length + head.length]? =
      some b := by
    have hat := byte_at (front ++ head) (value ++ [0]) b
    rwa [List.append_assoc, List.length_append] at hat
  obtain ⟨raw, hraw⟩ : ∃ raw, raw = (b :: value).takeWhile inValue := ⟨_, rfl⟩
  obtain ⟨after, hafter⟩ : ∃ after, after = (b :: value).dropWhile inValue := ⟨_, rfl⟩
  have hsplit : b :: value = raw ++ after := by
    rw [hraw, hafter, List.takeWhile_append_dropWhile]
  have hitem : valueItem key (b :: value) = (fields 0 key ++ [trimmed raw], after) := by
    rw [valueItem, if_neg hend, if_neg hquote, ← hraw, ← hafter]
  have hin : inValue b = true := by
    simp only [not_or] at hend
    simp [inValue, hend.1, hend.2]
  have hkept : trimmed raw ≠ [] := by
    rw [hraw, List.takeWhile_cons_of_pos hin]
    exact trimmed_cons_ne hblank _
  have hcspn := strcspn_value (front ++ head) (b :: value)
  rw [List.append_assoc, List.length_append, ← hraw] at hcspn
  have htrim := trimBack_at (front ++ (head ++ raw)) (after ++ [0])
  have hkeeps : trimmed (front ++ (head ++ raw)) = front ++ (head ++ trimmed raw) := by
    rw [← List.append_assoc, trimmed_append (.inl hkept), List.append_assoc]
  have hzeros : (front ++ (head ++ raw)).length - (front ++ (head ++ trimmed raw)).length =
      raw.length - (trimmed raw).length := by
    simp only [List.length_append]
    omega
  rw [hkeeps, hzeros] at htrim
  simp only [List.append_assoc, List.length_append, ← Nat.add_assoc] at htrim
  rw [splitValue, hbyte]
  simp only [if_neg hend, if_neg hquote, hcspn]
  rw [hitem, hsplit, List.append_assoc, htrim]
  have hle := trimmed_length_le raw
  have hnul : 0 ∉ trimmed raw := by
    intro hmem
    have hmem' := (List.rdropWhile_prefix isBlank raw).subset hmem
    rw [hraw] at hmem'
    have hzero := List.mem_takeWhile_imp hmem'
    simp [inValue] at hzero
  obtain ⟨m, hm⟩ := h.shape
  refine ⟨head ++ (trimmed raw ++ List.replicate (raw.length - (trimmed raw).length) 0), after,
    ?_, ?_, ?_, ?_, ?_, rfl⟩
  · simp only [Option.map_some, List.append_assoc, List.length_append, List.length_replicate]
    refine congrArg some (Prod.ext rfl ?_)
    omega
  · rw [hm]
    simp
  · simp only [List.length_append, List.length_replicate]
    omega
  · rw [hm, fields_item h.closed, fields_string hnul hkept]
  · rw [hafter]
    refine dropWhile_edge (fun c hc => ?_) _
    simp only [inValue, decide_eq_false_iff_not, not_and_or, not_not] at hc
    exact hc

/-- The value of a line. -/
theorem Keyed.value {key head value : List UInt8} (h : Keyed front key head) {fin : Nat}
    (hfin : fin = front.length + (head ++ value).length)
    (hblank : ∀ b t, value = b :: t → isBlank b = false) :
    Takes front (head ++ value) (valueItem key value)
      (splitValue fin (front ++ (head ++ (value ++ [0]))) front.length
        (front.length + head.length)) := by
  cases value with
  | nil =>
      have hbyte : (front ++ (head ++ ([] ++ [0])))[front.length + head.length]? = some 0 := by
        have hat := byte_at (front ++ head) [] 0
        rwa [List.append_assoc, List.length_append] at hat
      rw [splitValue, hbyte]
      exact h.discards hfin rfl rfl
  | cons b value =>
      by_cases hend : b = 0x0A ∨ b = 0
      · have hbyte : (front ++ (head ++ (b :: value ++ [0])))[front.length + head.length]? =
            some b := by
          have hat := byte_at (front ++ head) (value ++ [0]) b
          rwa [List.append_assoc, List.length_append] at hat
        have hitem : valueItem key (b :: value) = ([], afterLine (b :: value)) := by
          rw [valueItem, if_pos hend]
        rw [splitValue, hbyte]
        simp only [if_pos hend]
        exact h.discards hfin (by rw [hitem]) (by rw [hitem])
      · by_cases hquote : b = 0x22
        · subst hquote
          exact h.quoted hfin
        · exact h.plain hend hquote (hblank b value rfl)

theorem strcspn_key (front text : List UInt8) :
    strcspn (front ++ (text ++ [0])) front.length [0x3D, 0x0A] =
      some (text.takeWhile inKey).length := by
  have hp : (fun b : UInt8 => !decide (b = 0 ∨ b ∈ [(0x3D : UInt8), 0x0A])) = inKey := by
    funext b
    simp [inKey]
  rw [strcspn_at, hp]

theorem strcspn_header (front text : List UInt8) :
    strcspn (front ++ (text ++ [0])) front.length [0x5D, 0x0A] =
      some (text.takeWhile inHeader).length := by
  have hp : (fun b : UInt8 => !decide (b = 0 ∨ b ∈ [(0x5D : UInt8), 0x0A])) = inHeader := by
    funext b
    simp [inHeader]
  rw [strcspn_at, hp]

theorem inKey_takeWhile (text : List UInt8) : 0x0A ∉ text.takeWhile inKey := by
  intro hmem
  have hkey := List.mem_takeWhile_imp hmem
  simp [inKey] at hkey

/-- The key of a line with a `=` is trimmed, and what is between it and its value goes. -/
theorem splitKey_value {fin : Nat} {b : UInt8} (hclosed : Closed front)
    (hblank : isBlank b = false) (hfin : fin = front.length + (b :: text).length)
    {after : List UInt8} (hafter : (b :: text).dropWhile inKey = 0x3D :: after) :
    Takes front (b :: text)
      (valueItem (trimmed ((b :: text).takeWhile inKey)) (after.dropWhile isBlank))
      (splitKey fin (front ++ (b :: text ++ [0])) front.length) := by
  obtain ⟨name, hname⟩ : ∃ name, name = (b :: text).takeWhile inKey := ⟨_, rfl⟩
  have hsplit : b :: text = name ++ 0x3D :: after := by
    rw [hname, ← hafter, List.takeWhile_append_dropWhile]
  have hnl : 0x0A ∉ name := hname ▸ inKey_takeWhile _
  have hkeeps : trimmed (front ++ name) = front ++ trimmed name := by
    refine trimmed_append ?_
    cases hcase : name with
    | nil => exact .inr hclosed.trimmed
    | cons c name' =>
        rw [hcase, List.cons_append] at hsplit
        rw [← (List.cons.inj hsplit).1]
        exact .inl (trimmed_cons_ne hblank _)
  have hle := trimmed_length_le name
  have hbyte : (front ++ (b :: text ++ [0]))[front.length + name.length]? = some 0x3D := by
    have hat := byte_at (front ++ name) (after ++ [0]) 0x3D
    rwa [List.length_append, List.append_assoc, ← List.cons_append, ← List.append_assoc name,
      ← hsplit] at hat
  have htrim := trimBack_at (front ++ name) (0x3D :: (after ++ [0]))
  have hzeros : (front ++ name).length - (front ++ trimmed name).length =
      name.length - (trimmed name).length := by
    simp only [List.length_append]
    omega
  rw [hkeeps, hzeros, List.append_assoc, ← List.cons_append, ← List.append_assoc name, ← hsplit,
    List.length_append, List.append_assoc] at htrim
  obtain ⟨k, hk⟩ : ∃ k, k = name.length - (trimmed name).length := ⟨_, rfl⟩
  rw [← hk] at htrim
  obtain ⟨m, hm⟩ : ∃ m, m = (after.takeWhile isBlank).length := ⟨_, rfl⟩
  have hclear := clearEqual_at (front ++ (trimmed name ++ List.replicate k 0)) after 0x3D
  have hplace : (front ++ (trimmed name ++ List.replicate k (0 : UInt8))).length =
      front.length + name.length := by
    simp only [List.length_append, List.length_replicate]
    omega
  rw [hplace, ← hm] at hclear
  simp only [List.append_assoc] at hclear
  have hleft : (front ++ (trimmed name ++ (List.replicate k 0 ++ 0x3D :: (after ++ [0])))).length -
      (front.length + name.length) = after.length + 2 := by
    simp only [List.length_append, List.length_replicate, List.length_cons, List.length_nil]
    omega
  have hkeyed : Keyed front (trimmed name) (trimmed name ++ List.replicate (k + m + 1) 0) := by
    refine ⟨hclosed, ?_, k + m, rfl⟩
    intro hmem
    rcases List.mem_append.1 hmem with hmem | hmem
    · exact hnl ((List.rdropWhile_prefix isBlank name).subset hmem)
    · exact absurd (List.eq_of_mem_replicate hmem) (by decide)
  have hhead : (trimmed name ++ List.replicate (k + m + 1) (0 : UInt8)).length =
      name.length + (m + 1) := by
    simp only [List.length_append, List.length_replicate]
    omega
  have hblanks : m + (after.dropWhile isBlank).length = after.length := by
    rw [hm, ← List.length_append, List.takeWhile_append_dropWhile]
  have htotal : fin = front.length +
      (trimmed name ++ List.replicate (k + m + 1) 0 ++ after.dropWhile isBlank).length := by
    rw [List.length_append, hhead, hfin, hsplit, List.length_append, List.length_cons]
    omega
  have hvalue := hkeyed.value htotal (fun c t hc => by
    have hnot := List.head?_dropWhile_not isBlank after
    rw [hc] at hnot
    simpa using hnot)
  have hcspn := strcspn_key front (b :: text)
  rw [← hname] at hcspn ⊢
  rw [splitKey, hcspn]
  simp only [List.cons_append] at hbyte htrim ⊢
  simp only [hbyte, htrim, hleft, hclear]
  have hzero : List.replicate (k + m + 1) (0 : UInt8) =
      List.replicate k 0 ++ List.replicate (m + 1) 0 := by
    rw [List.replicate_append_replicate, Nat.add_assoc]
  have hsame : (trimmed name ++ List.replicate (k + m + 1) 0 ++
      after.dropWhile isBlank).length = (b :: text).length := by
    omega
  rw [hhead, ← Nat.add_assoc front.length, hzero] at hvalue
  rw [hzero] at hsame
  simp only [List.append_assoc] at hvalue hsame
  rw [if_neg (not_not.2 rfl)]
  exact hvalue.of_length hsame

/-- A line with a key. -/
theorem splitKey_takes {fin : Nat} {b : UInt8} (hclosed : Closed front) (hb : b ≠ 0x0A)
    (hblank : isBlank b = false) (hfin : fin = front.length + (b :: text).length) :
    Takes front (b :: text) (keyItem (b :: text))
      (splitKey fin (front ++ (b :: text ++ [0])) front.length) := by
  obtain ⟨name, hname⟩ : ∃ name, name = (b :: text).takeWhile inKey := ⟨_, rfl⟩
  have hnl : 0x0A ∉ name := hname ▸ inKey_takeWhile _
  have hline : lineOf (b :: text) ≠ [] := by simp [lineOf, hb]
  have hcspn := strcspn_key front (b :: text)
  rw [← hname] at hcspn
  rw [keyItem]
  cases hafter : (b :: text).dropWhile inKey with
  | nil =>
      have hsplit : b :: text = name := by
        rw [← List.append_nil name, hname, ← hafter, List.takeWhile_append_dropWhile]
      have hbyte : (front ++ (b :: text ++ [0]))[front.length + name.length]? = some 0 := by
        have hat := byte_at (front ++ name) [] 0
        rw [hsplit]
        rwa [List.append_assoc, List.length_append] at hat
      have hrest : afterLine (b :: text) = [] := by
        rw [hsplit, ← List.append_nil name, afterLine_append hnl]
        rfl
      rw [splitKey, hcspn]
      simp only [hbyte]
      rw [if_pos (by decide)]
      exact discardLine_takes hline hfin rfl hrest.symm
  | cons c after =>
      have hsplit : b :: text = name ++ c :: after := by
        rw [hname, ← hafter, List.takeWhile_append_dropWhile]
      by_cases hc : c = 0x3D
      · subst hc
        simp only [if_true]
        exact splitKey_value hclosed hblank hfin hafter
      · have hbyte : (front ++ (b :: text ++ [0]))[front.length + name.length]? = some c := by
          have hat := byte_at (front ++ name) (after ++ [0]) c
          rwa [List.length_append, List.append_assoc, ← List.cons_append, ← List.append_assoc name,
            ← hsplit] at hat
        have hrest : afterLine (b :: text) = afterLine (c :: after) := by
          rw [hsplit, afterLine_append hnl]
        simp only [if_neg hc]
        rw [splitKey, hcspn]
        simp only [hbyte]
        rw [if_pos hc]
        exact discardLine_takes hline hfin rfl hrest.symm

/-- A section header ends with its bracket, which is overwritten. -/
theorem header_takes (hclosed : Closed front) :
    Takes front (0x5B :: text)
      ([0x5B :: text.takeWhile inHeader], (text.dropWhile inHeader).tail)
      (match strcspn (front ++ (0x5B :: text ++ [0])) front.length [0x5D, 0x0A] with
        | none => none
        | some n => (store (front ++ (0x5B :: text ++ [0])) (front.length + n) 0).map
            fun data => (data, front.length + n)) := by
  obtain ⟨name, hname⟩ : ∃ name, name = (0x5B :: text).takeWhile inHeader := ⟨_, rfl⟩
  obtain ⟨after, hafter⟩ : ∃ after, after = (0x5B :: text).dropWhile inHeader := ⟨_, rfl⟩
  have hsplit : 0x5B :: text = name ++ after := by
    rw [hname, hafter, List.takeWhile_append_dropWhile]
  have hcons : name = 0x5B :: text.takeWhile inHeader := hname
  have htail : after = text.dropWhile inHeader := hafter
  have hnul : 0 ∉ name := by
    intro hmem
    rw [hname] at hmem
    have hzero := List.mem_takeWhile_imp hmem
    simp [inHeader] at hzero
  have hne : name ≠ [] := by
    rw [hcons]
    exact List.cons_ne_nil _ _
  have hfields : fields 0 (front ++ name) = fields 0 front ++ [name] := by
    rw [fields_append (.inl hclosed), fields_string hnul hne]
  have hcspn := strcspn_header front (0x5B :: text)
  rw [← hname] at hcspn
  rw [hcspn, ← hcons, ← htail]
  cases hcase : after with
  | nil =>
      have hstore := store_at (front ++ name) [] 0 0
      rw [hcase, List.append_nil] at hsplit
      rw [List.append_assoc, List.length_append] at hstore
      simp only
      rw [hsplit, hstore]
      exact ⟨name, [], rfl, hne, rfl, hfields, .inr (.inl rfl), rfl⟩
  | cons c after =>
      have hstore := store_at (front ++ name) (after ++ [0]) c 0
      rw [hcase] at hsplit
      rw [List.length_append, List.append_assoc, ← List.cons_append, ← List.append_assoc name,
        ← hsplit] at hstore
      simp only [hstore]
      refine ⟨name, 0 :: after, by simp, hne, ?_, hfields, .inr (.inr ⟨after, .inr rfl⟩), ?_⟩
      · rw [hsplit, List.length_append, List.length_cons, List.length_cons]
      · rw [strings_cons]
        rfl

/-- What the `switch` does with the byte at `p`. -/
theorem splitItem_takes {fin : Nat} {b : UInt8} (hedge : AtEdge front (b :: text))
    (hfin : fin = front.length + (b :: text).length) :
    Takes front (b :: text) (item b text)
      (splitItem fin (front ++ (b :: text ++ [0])) front.length b) := by
  by_cases hspace : b = 0x0D ∨ b = 0x0A ∨ b = 0x09 ∨ b = 0x20
  · have hitem : item b text = ([], text) := by
      rw [item, if_pos]
      rcases hspace with h | h | h | h <;> simp [h]
    rw [splitItem, if_pos hspace, List.cons_append, store_at, hitem]
    refine ⟨[0], text, by simp, List.cons_ne_nil _ _, by simp [Nat.add_comm], ?_,
      .inl (.inr ⟨front, rfl⟩), rfl⟩
    rw [List.append_nil]
    exact fields_append_replicate front 1
  · by_cases hzero : b = 0
    · subst hzero
      have hitem : item 0 text = ([], text) := by simp [item]
      rw [hitem]
      refine ⟨[0], text, by simp [splitItem], List.cons_ne_nil _ _, by simp [Nat.add_comm], ?_,
        .inl (.inr ⟨front, rfl⟩), rfl⟩
      rw [List.append_nil]
      exact fields_append_replicate front 1
    · have hnl : b ≠ 0x0A := fun h => hspace (.inr (.inl h))
      have hclosed := hedge.closed ⟨hzero, hnl⟩
      have hother : ¬(b = 0x0D ∨ b = 0x0A ∨ b = 0x09 ∨ b = 0x20 ∨ b = 0) := by
        simp only [not_or] at hspace ⊢
        exact ⟨hspace.1, hspace.2.1, hspace.2.2.1, hspace.2.2.2, hzero⟩
      rw [splitItem, if_neg hspace, if_neg hzero, item, if_neg hother]
      by_cases hheader : b = 0x5B
      · subst hheader
        exact header_takes hclosed
      · rw [if_neg hheader, if_neg hheader]
        by_cases hcomment : b = 0x3B
        · subst hcomment
          rw [if_pos rfl, if_pos rfl]
          exact discardLine_takes (by simp [lineOf]) hfin rfl rfl
        · rw [if_neg hcomment, if_neg hcomment]
          refine splitKey_takes hclosed hnl ?_ hfin
          simp only [not_or] at hspace
          simp [isBlank, hspace.1, hspace.2.2.1, hspace.2.2.2]

/-- A turn of the loop, and those before it. -/
def Splitting (fin : Nat) (words : List (List UInt8)) (s : List UInt8 × Nat) : Prop :=
  ∃ front text, s = (front ++ (text ++ [0]), front.length) ∧
    fin = front.length + text.length ∧ AtEdge front text ∧ fields 0 front ++ strings text = words

/-- The buffer of a text that has been split. -/
structure Split (fin : Nat) (words : List (List UInt8)) (data : List UInt8) : Prop where
  length : data.length = fin + 1
  ended : data[fin]? = some 0
  fields : fields 0 data = words

/-- The loop returns, with the strings of the text in the buffer. -/
theorem splitData_split (text : List UInt8) :
    ∃ data, splitData text.length (text.length + 1) (text ++ [0]) = some data ∧
      Split text.length (strings text) data := by
  refine FuelLoop.run_meets (Splitting text.length (strings text))
    (Split text.length (strings text)) (fun s => text.length - s.2) ?_ ?_ (Nat.lt_succ_of_le ?_)
  · rintro _ ⟨front, left, rfl, hfin, hedge, hwords⟩
    cases left with
    | nil =>
        refine .inl ⟨front ++ [0], ?_, ?_, ?_, ?_⟩
        · rw [splitStep, if_neg (by simp [hfin])]
          rfl
        · simp [hfin]
        · rw [hfin]
          simp
        · rw [strings_nil, List.append_nil] at hwords
          exact (fields_append_replicate front 1).trans hwords
    | cons b left =>
        right
        have hlt : front.length < text.length := by
          rw [hfin, List.length_cons]
          omega
        obtain ⟨mid, left', hitem, htaken⟩ := splitItem_takes hedge hfin
        have hlengths := htaken.lengths
        have hpos := List.length_pos_of_ne_nil htaken.some_byte
        refine ⟨_, ?_, ⟨front ++ mid, left', rfl, ?_, htaken.edge, ?_⟩, ?_⟩
        · rw [splitStep, if_pos hlt]
          simp only [List.cons_append, byte_at] at hitem ⊢
          rw [hitem, Option.map_some, List.length_append, List.append_assoc]
        · rw [hfin, List.length_append, ← hlengths, Nat.add_assoc]
        · rw [htaken.fields, List.append_assoc, htaken.strings, ← strings_cons, hwords]
        · simp only [List.length_append]
          omega
  · exact ⟨[], text, rfl, by simp, .inl (.inl rfl), by simp⟩
  · exact Nat.sub_le _ _

-- A line that starts with its `=` leaves its value where a key is expected.
example : (splitData 6 7 [0x3D, 0x76, 0x0A, 0x6B, 0x3D, 0x77, 0]).map (fields 0) =
    some [[0x76], [0x6B], [0x77]] := by
  decide

end Settings
end Cubiboot
