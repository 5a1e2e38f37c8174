import Cubiboot.Patching.Elf

/-!
# Names of sections and symbols

`ensdwith` is what it says; a section is of one revision at most; and the name that `main`
looks up for the size of a section is the one that `patch-size.py` has made.

The suffixes of the revisions are those of `bios_table`, and none of them is the end of
another. The name of a section that is patched starts with `patchPrefix` and ends in the
suffix of a revision and `_func`; that of its size symbol lacks the prefix, and has
`_size` at its end in place of `_func`.

Results: `ensdwith_iff`; `revision_unique`; `currentSymname_eq`, that the name which is
looked up is `sizeName`, and that `stringBuffer` has room for it; and
`getSymbolValue_eq`, that the value which is found is that of the last symbol of the
name.
-/

namespace Cubiboot
namespace Patching

variable {str suffix name : Str} {elf : PatchesElf} {bios bios' : BiosItem}

theorem ensdwith_iff : ensdwith str suffix = true ↔ suffix <:+ str := by
  rw [ensdwith]
  split
  · rename_i hlonger
    refine iff_of_false Bool.false_ne_true fun h => ?_
    exact absurd h.length_le (Nat.not_le.2 hlonger)
  · rename_i hlonger
    rw [List.isPrefixOf_iff_prefix, List.suffix_iff_eq_drop]
    constructor
    · intro h
      refine h.eq_of_length ?_
      rw [List.length_drop]
      omega
    · exact fun h => ⟨[], by rw [List.append_nil]; exact h⟩

/-- No suffix is the end of another one. -/
theorem patchRegionSuffix_apart (h : bios ∈ biosTable) (h' : bios' ∈ biosTable)
    (hsuffix : patchRegionSuffix bios <:+ patchRegionSuffix bios') : bios = bios' := by
  have hall : ∀ b ∈ biosTable, ∀ b' ∈ biosTable,
      patchRegionSuffix b <:+ patchRegionSuffix b' → b = b' := by decide
  exact hall bios h bios' h' hsuffix

/-- A name ends in the suffix of one revision at most. -/
theorem revision_unique (h : bios ∈ biosTable) (h' : bios' ∈ biosTable)
    (hname : patchRegionSuffix bios <:+ name) (hname' : patchRegionSuffix bios' <:+ name) :
    bios = bios' := by
  rcases List.suffix_or_suffix_of_suffix hname hname' with hsuffix | hsuffix
  · exact patchRegionSuffix_apart h h' hsuffix
  · exact (patchRegionSuffix_apart h' h hsuffix).symm

/-- There is room for the prefix before the end of a name. -/
theorem patchRegionSuffix_length (h : bios ∈ biosTable) :
    12 ≤ (patchRegionSuffix bios).length := by
  have hall : ∀ b ∈ biosTable, 12 ≤ (patchRegionSuffix b).length := by decide
  exact hall bios h

theorem func_suffix (hname : patchRegionSuffix bios <:+ name) : "_func".toList <:+ name :=
  (List.suffix_append _ _).trans hname

/-- The end of the name is replaced, and the prefix is left out. -/
theorem currentSymname_eq (hpatch : patchPrefix <+: name) (hfunc : "_func".toList <:+ name)
    (hroom : 12 ≤ name.length) (hfits : name.length < stringBufferSize) :
    currentSymname name = some (sizeName name) := by
  have hfront : patchPrefix.length = 7 := by decide
  have hfive : "_func".toList.length = 5 := by decide
  have hnew : "_size".toList.length = 5 := by decide
  have hbody : "_func".toList <:+ name.drop patchPrefix.length := by
    refine List.suffix_of_suffix_length_le hfunc (List.drop_suffix _ _) ?_
    rw [List.length_drop, hfront, hfive]
    omega
  have hsize : sizeName name =
      (name.take (name.length - 5)).drop patchPrefix.length ++ "_size".toList := by
    rw [sizeName, removePrefix, if_pos (List.isPrefixOf_iff_prefix.2 hpatch), removeSuffix,
      if_pos (List.isSuffixOf_iff_suffix.2 hbody), List.drop_take, List.length_drop, hfront,
      hfive, Nat.sub_right_comm]
  have hcopy : CString.strcpy stringBufferSize name = some ⟨name, hfits⟩ :=
    CString.strcpy_eq_some.2 rfl
  have hlength : (name.take (name.length - 5) ++ "_size".toList).length < stringBufferSize := by
    rw [List.length_append, List.length_take, hnew]
    omega
  have hcat : CString.strcat (CString.Stored.cut ⟨name, hfits⟩ (name.length - 5))
      "_size".toList = some ⟨_, hlength⟩ := CString.strcat_eq_some.2 rfl
  rw [currentSymname, hcopy, Option.bind_some, hcat, Option.map_some, hsize,
    List.drop_append_of_le_length]
  rw [List.length_take, hfront]
  omega

/-- The value of the last symbol of a name. -/
def lastNamed (elf : PatchesElf) (name : Str) : Option Nat :=
  (elf.syment.filter fun sym => sym.stName ≠ 0 ∧ symbolName elf sym = name).getLast?.map
    Elf32Sym.stValue

/-- `get_symbol_value` finds it, and takes 0 for a symbol that is not there. -/
theorem getSymbolValue_eq (elf : PatchesElf) (name : Str) :
    getSymbolValue elf name = (lastNamed elf name).getD 0 := by
  have hloop : ∀ (syms : List Elf32Sym) (value : Nat),
      syms.foldl (fun value sym =>
          if sym.stName = 0 then value
          else if symbolName elf sym = name then sym.stValue
          else value) value =
        ((syms.filter fun sym => sym.stName ≠ 0 ∧ symbolName elf sym = name).getLast?.map
          Elf32Sym.stValue).getD value := by
    intro syms
    induction syms with
    | nil => exact fun _ => rfl
    | cons sym syms ih =>
        intro value
        rw [List.foldl_cons, ih]
        by_cases hsym : sym.stName ≠ 0 ∧ symbolName elf sym = name
        · rw [List.filter_cons_of_pos (by simpa using hsym), List.getLast?_cons, if_neg hsym.1,
            if_pos hsym.2]
          cases (syms.filter fun sym => sym.stName ≠ 0 ∧ symbolName elf sym = name).getLast? with
          | none => rfl
          | some _ => rfl
        · rw [List.filter_cons_of_neg (by simpa using hsym)]
          by_cases hzero : sym.stName = 0
          · rw [if_pos hzero]
          · rw [if_neg hzero, if_neg fun hname => hsym ⟨hzero, hname⟩]
  exact hloop elf.syment 0

theorem lastNamed_lt {v : Nat} (h : lastNamed elf name = some v) : v < 0x100000000 := by
  obtain ⟨sym, _, rfl⟩ := Option.map_eq_some_iff.1 h
  exact sym.stValue_lt

end Patching
end Cubiboot
