import Cubiboot.Foundations.LinkedSegment
import Cubiboot.Heap.Pmalloc

/-!
# The lists of the heap

A list of the allocator is a doubly linked segment from its root, its nodes in
the order of their addresses and their headers apart (`Linked`, `Spaced`).
`pmalloc_item_remove` takes a node off, and `pmalloc_item_insert` puts one in its
place: at the front only if the node's `prev` is `NULL` already, and at the end
only if its `next` is.  Neither touches any word but the links of the list.

Results: `Linked.frame`, that a list stands as long as nobody writes to its links;
`Linked.fields`, the neighbours of a node; `itemRemove_linked` and
`itemRemove_detached`, the list without a node and the node without a list;
`itemInsert_spliced`, the list with a node in its place, one case for each place that it
may have.
-/

namespace Cubiboot
namespace Heap

open FuelLoop LinkedSegment

/-- The node a pointer refers to. -/
def link (p : Nat) : Option Nat :=
  if p = 0 then none else some p

@[simp] theorem link_zero : link 0 = none := rfl

theorem link_of_ne {p : Nat} (h : p ≠ 0) : link p = some p :=
  if_neg h

theorem link_eq_none {p : Nat} : link p = none ↔ p = 0 := by
  by_cases h : p = 0 <;> simp [link, h]

theorem link_eq_some {p n : Nat} : link p = some n ↔ p = n ∧ n ≠ 0 := by
  by_cases h : p = 0
  · simp only [h, link_zero]
    constructor
    · intro h'
      cases h'
    · rintro ⟨rfl, hn⟩
      exact absurd rfl hn
  · rw [link_of_ne h]
    constructor
    · intro h'
      cases h'
      exact ⟨rfl, h⟩
    · rintro ⟨rfl, _⟩
      rfl

/-- Headers apart, in the order of their addresses. -/
def Spaced (l : List Nat) : Prop :=
  l.Pairwise fun n m => n + itemBytes ≤ m

section Spaced

variable {l m : List Nat} {x : Nat}

theorem Spaced.nodup (hs : Spaced l) : l.Nodup := by
  refine hs.imp ?_
  intro a b hab heq
  simp only [itemBytes] at hab
  omega

theorem Spaced.left (hs : Spaced (l ++ x :: m)) {y : Nat} (hy : y ∈ l) :
    y + 16 ≤ x :=
  (List.pairwise_append.1 hs).2.2 y hy x List.mem_cons_self

theorem Spaced.right (hs : Spaced (l ++ x :: m)) {y : Nat} (hy : y ∈ m) :
    x + 16 ≤ y :=
  (List.pairwise_cons.1 (List.pairwise_append.1 hs).2.1).1 y hy

theorem Spaced.apart (hs : Spaced l) {a b : Nat} (ha : a ∈ l) (hb : b ∈ l) :
    a = b ∨ a + 16 ≤ b ∨ b + 16 ≤ a := by
  obtain ⟨u, v, rfl⟩ := List.append_of_mem ha
  rcases List.mem_append.1 hb with hb | hb
  · exact .inr (.inr (hs.left hb))
  · rcases List.mem_cons.1 hb with rfl | hb
    · exact .inl rfl
    · exact .inr (.inl (hs.right hb))

theorem Spaced.without (hs : Spaced (l ++ x :: m)) : Spaced (l ++ m) :=
  hs.sublist ((List.sublist_cons_self x m).append_left l)

end Spaced

/-- The word at `a`, and who wrote it, are the same. -/
def SameAt (h h' : Pmalloc) (a : Nat) : Prop :=
  h'.mem a = h.mem a ∧ h'.ours a = h.ours a

/-- Only links of the nodes of `l` have changed. -/
def LinksOnly (l : List Nat) (h h' : Pmalloc) : Prop :=
  ∀ a, (∀ n ∈ l, a ≠ n ∧ a ≠ n + 4) → SameAt h h' a

/-- A list of the allocator. -/
structure Linked (h : Pmalloc) (r : Root) (l : List Nat) : Prop where
  root : link (h.root r) = l.head?
  chain : Segment (fun n => link (h.next n)) (fun n => link (h.prev n)) none l none
  ours : ∀ n ∈ l, h.ours n = true ∧ h.ours (n + 4) = true

theorem SameAt.trans
    {h h' h'' : Pmalloc} {a : Nat} (h₁ : SameAt h h' a) (h₂ : SameAt h' h'' a) :
    SameAt h h'' a :=
  ⟨h₂.1.trans h₁.1, h₂.2.trans h₁.2⟩

theorem LinksOnly.mono
    {l k : List Nat} {h h' : Pmalloc}
    (hl : LinksOnly l h h') (hsub : ∀ n ∈ l, n ∈ k) : LinksOnly k h h' :=
  fun a ha => hl a fun n hn => ha n (hsub n hn)

theorem LinksOnly.trans
    {l : List Nat} {h h' h'' : Pmalloc}
    (h₁ : LinksOnly l h h') (h₂ : LinksOnly l h' h'') : LinksOnly l h h'' :=
  fun a ha => (h₁ a ha).trans (h₂ a ha)

/-- Only counters differ. -/
structure Alike (h h' : Pmalloc) : Prop where
  mem : h'.mem = h.mem
  ours : h'.ours = h.ours
  wild : h'.wild = h.wild
  root : ∀ r, h'.root r = h.root r

theorem Alike.sameAt
    {h h' : Pmalloc} (ha : Alike h h') (a : Nat) : SameAt h h' a := by
  constructor
  · rw [ha.mem]
  · rw [ha.ours]

theorem Alike.refl (h : Pmalloc) : Alike h h :=
  ⟨rfl, rfl, rfl, fun _ => rfl⟩

theorem alike_counters (h : Pmalloc) (f t n : Nat) :
    Alike h { h with freemem := f, totalmem := t, totalnodes := n } :=
  ⟨rfl, rfl, rfl, fun r => by cases r <;> rfl⟩

/-- An update of one list. -/
structure LinkUpdate (r : Root) (l : List Nat) (h h' : Pmalloc) : Prop where
  links : LinksOnly l h h'
  roots : ∀ r', r' ≠ r → h'.root r' = h.root r'
  wild : h'.wild = h.wild

/-- A node with no neighbours. -/
structure Detached (h : Pmalloc) (x : Nat) : Prop where
  prev : h.prev x = 0
  next : h.next x = 0
  prev_ours : h.ours x = true
  next_ours : h.ours (x + 4) = true

variable {h h' : Pmalloc} {r : Root} {l m : List Nat} {x : Nat}

theorem Alike.detached (ha : Alike h h') (hd : Detached h x) : Detached h' x := by
  constructor
  · rw [Pmalloc.prev, ha.mem]
    exact hd.prev
  · rw [Pmalloc.next, ha.mem]
    exact hd.next
  · rw [ha.ours]
    exact hd.prev_ours
  · rw [ha.ours]
    exact hd.next_ours

theorem LinkUpdate.alike
    {h'' : Pmalloc} (hu : LinkUpdate r l h h') (ha : Alike h' h'') :
    LinkUpdate r l h h'' := by
  refine ⟨fun a hl => (hu.links a hl).trans (ha.sameAt a), ?_, ha.wild.trans hu.wild⟩
  intro r' hr
  exact (ha.root r').trans (hu.roots r' hr)

/-- A list depends on its root and on the links of its own nodes. -/
theorem Linked.frame
    (hl : Linked h r l)
    (hroot : h'.root r = h.root r)
    (hsame : ∀ n ∈ l, SameAt h h' n ∧ SameAt h h' (n + 4)) :
    Linked h' r l := by
  constructor
  · rw [hroot]
    exact hl.root
  · refine hl.chain.congr ?_ ?_
    · intro n hn
      simp only [Pmalloc.next, (hsame n hn).2.1]
    · intro n hn
      simp only [Pmalloc.prev, (hsame n hn).1.1]
  · intro n hn
    rw [(hsame n hn).1.2, (hsame n hn).2.2]
    exact hl.ours n hn

theorem Linked.alike (hl : Linked h r l) (ha : Alike h h') : Linked h' r l :=
  hl.frame (ha.root r) fun n _ => ⟨ha.sameAt n, ha.sameAt (n + 4)⟩

/-- An update of one list leaves the other as it is. -/
theorem Linked.frame_update
    {r' : Root} {k : List Nat}
    (hl : Linked h r l) (hu : LinkUpdate r' k h h') (hne : r ≠ r')
    (hapart : ∀ n ∈ l, ∀ y ∈ k, n + 16 ≤ y ∨ y + 16 ≤ n) :
    Linked h' r l := by
  refine hl.frame (hu.roots r hne) ?_
  intro n hn
  constructor
  · refine hu.links n fun y hy => ?_
    have hny := hapart n hn y hy
    omega
  · refine hu.links (n + 4) fun y hy => ?_
    have hny := hapart n hn y hy
    omega

/-- The neighbours of a node. -/
theorem Linked.fields
    (hl : Linked h r (l ++ x :: m)) :
    link (h.prev x) = l.getLast? ∧ link (h.next x) = m.head? := by
  have hf := hl.chain.fields
  simpa using hf

/-- A node of a list is not `NULL`. -/
theorem Linked.ne_zero
    (hl : Linked h r l) (hx : x ∈ l) : x ≠ 0 := by
  obtain ⟨u, v, rfl⟩ := List.append_of_mem hx
  rcases u.eq_nil_or_concat with rfl | ⟨u, w, rfl⟩
  · exact (link_eq_some.1 hl.root).2
  · have hl' : Linked h r (u ++ w :: x :: v) := by simpa using hl
    exact (link_eq_some.1 hl'.fields.2).2

theorem follow_ours {a : Nat} (ha : h.ours a = true) : h.follow a = h := by
  cases h
  simp only [Pmalloc.follow] at ha ⊢
  simp [ha]

section Stores

variable {a b v : Nat} {r' : Root}

theorem store_mem : (h.store a v).mem b = if b = a then v else h.mem b :=
  Function.update_apply h.mem a v b

theorem store_ours : (h.store a v).ours b = if b = a then true else h.ours b :=
  Function.update_apply h.ours a true b

@[simp] theorem store_root : (h.store a v).root r = h.root r := by
  cases r <;> rfl

@[simp] theorem store_wild : (h.store a v).wild = h.wild := rfl

@[simp] theorem setRoot_mem : (h.setRoot r v).mem = h.mem := by
  cases r <;> rfl

@[simp] theorem setRoot_ours : (h.setRoot r v).ours = h.ours := by
  cases r <;> rfl

@[simp] theorem setRoot_wild : (h.setRoot r v).wild = h.wild := by
  cases r <;> rfl

theorem setRoot_root :
    (h.setRoot r v).root r' = if r' = r then v else h.root r' := by
  cases r <;> cases r' <;> rfl

theorem sameAt_store (hne : b ≠ a) : SameAt h (h.store a v) b := by
  constructor
  · rw [store_mem, if_neg hne]
  · rw [store_ours, if_neg hne]

/-- A store to a word that is no link of the list. -/
theorem Linked.store
    (hl : Linked h r l) (ha : ∀ n ∈ l, a ≠ n ∧ a ≠ n + 4) :
    Linked (h.store a v) r l := by
  refine hl.frame store_root ?_
  intro n hn
  exact ⟨sameAt_store (ha n hn).1.symm, sameAt_store (ha n hn).2.symm⟩

end Stores

section Remove

/-- The links of a node are not among the words its removal writes first. -/
structure Loose (h : Pmalloc) (x : Nat) : Prop where
  before : h.prev x = 0 ∨ h.prev x + 16 ≤ x
  after : h.next x = 0 ∨ x + 16 ≤ h.next x
  ours : h.ours x = true ∧ h.ours (x + 4) = true

theorem Loose.bypassPrev (hx : Loose h x) :
    bypassPrev h x =
      if h.prev x ≠ 0 then h.store (h.prev x + 4) (h.next x) else h := by
  simp only [Heap.bypassPrev, follow_ours hx.ours.1]

theorem Loose.bypassPrev_links (hx : Loose h x) :
    (Heap.bypassPrev h x).prev x = h.prev x ∧ (Heap.bypassPrev h x).next x = h.next x ∧
      (Heap.bypassPrev h x).ours (x + 4) = true := by
  rw [hx.bypassPrev]
  split
  · rename_i hp
    have hlt : h.prev x + 16 ≤ x := hx.before.resolve_left hp
    simp only [Pmalloc.prev, Pmalloc.next, store_mem, store_ours] at hlt ⊢
    rw [if_neg (by omega), if_neg (by omega), if_neg (by omega)]
    exact ⟨rfl, rfl, hx.ours.2⟩
  · exact ⟨rfl, rfl, hx.ours.2⟩

/-- The memory after the two bypasses. -/
theorem Loose.bypass (hx : Loose h x) :
    bypassNext (Heap.bypassPrev h x) x =
      if h.next x ≠ 0 then
        (Heap.bypassPrev h x).store (h.next x) (h.prev x)
      else
        Heap.bypassPrev h x := by
  obtain ⟨hp, hn, ho⟩ := hx.bypassPrev_links
  simp only [bypassNext, follow_ours ho, hp, hn]

theorem Loose.bypass_mem (hx : Loose h x) (a : Nat) :
    (bypassNext (Heap.bypassPrev h x) x).mem a =
      if h.next x ≠ 0 ∧ a = h.next x then h.prev x
      else if h.prev x ≠ 0 ∧ a = h.prev x + 4 then h.next x
      else h.mem a := by
  rw [hx.bypass, hx.bypassPrev]
  by_cases hn : h.next x = 0 <;> by_cases hp : h.prev x = 0 <;>
    simp [hn, hp, store_mem]

theorem Loose.bypass_ours (hx : Loose h x) (a : Nat) :
    (bypassNext (Heap.bypassPrev h x) x).ours a =
      if (h.next x ≠ 0 ∧ a = h.next x) ∨ (h.prev x ≠ 0 ∧ a = h.prev x + 4) then true
      else h.ours a := by
  rw [hx.bypass, hx.bypassPrev]
  by_cases hn : h.next x = 0 <;> by_cases hp : h.prev x = 0 <;>
    simp [hn, hp, store_ours, ite_or]

theorem Loose.bypass_rest (hx : Loose h x) :
    (bypassNext (Heap.bypassPrev h x) x).wild = h.wild ∧
      ∀ r, (bypassNext (Heap.bypassPrev h x) x).root r = h.root r := by
  rw [hx.bypass, hx.bypassPrev]
  by_cases hn : h.next x = 0 <;> by_cases hp : h.prev x = 0 <;>
    simp [hn, hp]

/-- The root after a node is taken off its list. -/
theorem Loose.remove_root (hx : Loose h x) (r' : Root) :
    (pmallocItemRemove r h x).root r' =
      if r' = r ∧ x = h.root r then
        if h.prev x ≠ 0 then h.prev x else h.next x
      else
        h.root r' := by
  have hprev : (bypassNext (Heap.bypassPrev h x) x).prev x = h.prev x := by
    have hb := hx.before
    have ha := hx.after
    simp only [Pmalloc.prev, Pmalloc.next] at hb ha ⊢
    rw [hx.bypass_mem, if_neg (by simp only [Pmalloc.next]; omega),
      if_neg (by simp only [Pmalloc.prev]; omega)]
  have hnext : (bypassNext (Heap.bypassPrev h x) x).next x = h.next x := by
    have hb := hx.before
    have ha := hx.after
    simp only [Pmalloc.prev, Pmalloc.next] at hb ha ⊢
    rw [hx.bypass_mem, if_neg (by simp only [Pmalloc.next]; omega),
      if_neg (by simp only [Pmalloc.prev]; omega)]
  simp only [pmallocItemRemove, store_root, fixRoot, hprev, hnext, hx.bypass_rest.2]
  by_cases hroot : x = h.root r
  · rw [if_pos hroot, setRoot_root, hx.bypass_rest.2]
    by_cases hr : r' = r <;> simp [hr, hroot]
  · rw [if_neg hroot, hx.bypass_rest.2]
    simp [hroot]

theorem fixRoot_rest {h : Pmalloc} :
    (fixRoot r h x).mem = h.mem ∧ (fixRoot r h x).ours = h.ours ∧
      (fixRoot r h x).wild = h.wild := by
  simp only [fixRoot]
  split <;> simp

theorem Loose.remove_mem (hx : Loose h x) (a : Nat) :
    (pmallocItemRemove r h x).mem a =
      if a = x ∨ a = x + 4 then 0
      else if h.next x ≠ 0 ∧ a = h.next x then h.prev x
      else if h.prev x ≠ 0 ∧ a = h.prev x + 4 then h.next x
      else h.mem a := by
  simp only [pmallocItemRemove, store_mem, fixRoot_rest.1, hx.bypass_mem, ite_or]

theorem Loose.remove_ours (hx : Loose h x) (a : Nat) :
    (pmallocItemRemove r h x).ours a =
      if (a = x ∨ a = x + 4) ∨ (h.next x ≠ 0 ∧ a = h.next x) ∨
        (h.prev x ≠ 0 ∧ a = h.prev x + 4) then true
      else h.ours a := by
  simp only [pmallocItemRemove, store_ours, fixRoot_rest.2.1, hx.bypass_ours, ite_or]

theorem Loose.remove_wild (hx : Loose h x) :
    (pmallocItemRemove r h x).wild = h.wild := by
  simp only [pmallocItemRemove, store_wild, fixRoot_rest.2.2, hx.bypass_rest.1]

/-- A node of a spaced list. -/
theorem Linked.loose
    (hl : Linked h r (l ++ x :: m)) (hs : Spaced (l ++ x :: m)) : Loose h x := by
  obtain ⟨hprev, hnext⟩ := hl.fields
  refine ⟨?_, ?_, hl.ours x (by simp)⟩
  · by_cases hp : h.prev x = 0
    · exact .inl hp
    · rw [link_of_ne hp] at hprev
      exact .inr (hs.left (List.mem_of_getLast? hprev.symm))
  · by_cases hn : h.next x = 0
    · exact .inl hn
    · rw [link_of_ne hn] at hnext
      exact .inr (hs.right (List.mem_of_head? hnext.symm))

/-- The root of a list is one of its nodes. -/
theorem Linked.root_mem
    (hl : Linked h r l) (hne : h.root r ≠ 0) : h.root r ∈ l := by
  have hroot := hl.root
  rw [link_of_ne hne] at hroot
  exact List.mem_of_head? hroot.symm

/-- `pmalloc_item_remove` takes the node off its list. -/
theorem itemRemove_linked
    (hl : Linked h r (l ++ x :: m)) (hs : Spaced (l ++ x :: m)) :
    Linked (pmallocItemRemove r h x) r (l ++ m) := by
  have hx := hl.loose hs
  obtain ⟨hprev, hnext⟩ := hl.fields
  have hapart : ∀ y ∈ l ++ m, y + 16 ≤ x ∨ x + 16 ≤ y := by
    intro y hy
    rcases List.mem_append.1 hy with hy | hy
    · exact .inl (hs.left hy)
    · exact .inr (hs.right hy)
  have hp : h.prev x ≠ 0 → h.prev x ∈ l := by
    intro hp
    rw [link_of_ne hp] at hprev
    exact List.mem_of_getLast? hprev.symm
  have hn : h.next x ≠ 0 → h.next x ∈ m := by
    intro hn
    rw [link_of_ne hn] at hnext
    exact List.mem_of_head? hnext.symm
  have hnext_apart : h.next x ≠ 0 → ∀ y ∈ l ++ m,
      y = h.next x ∨ y + 16 ≤ h.next x ∨ h.next x + 16 ≤ y :=
    fun hne y hy => hs.without.apart hy (List.mem_append_right l (hn hne))
  have hprev_apart : h.prev x ≠ 0 → ∀ y ∈ l ++ m,
      y = h.prev x ∨ y + 16 ≤ h.prev x ∨ h.prev x + 16 ≤ y :=
    fun hne y hy => hs.without.apart hy (List.mem_append_left m (hp hne))
  constructor
  · rw [hx.remove_root]
    cases l with
    | nil =>
        have hroot : h.root r = x := (link_eq_some.1 hl.root).1
        have hzero : h.prev x = 0 := link_eq_none.1 hprev
        rw [if_pos ⟨rfl, hroot.symm⟩, if_neg (by simpa using hzero)]
        exact hnext
    | cons y l =>
        have hroot : h.root r = y := (link_eq_some.1 hl.root).1
        have hlt := hs.left (y := y) (by simp)
        rw [if_neg (by omega)]
        exact hl.root
  · refine hl.chain.unlink hs.nodup ?_ ?_ ?_ ?_
    · intro y hy hlast
      have hxy := hapart y hy
      have hny := fun hne => hnext_apart hne y hy
      have hyp : h.prev x ≠ 0 → y ≠ h.prev x := by
        rintro hne rfl
        rw [link_of_ne hne] at hprev
        exact hlast hprev.symm
      simp only [Pmalloc.next] at hny ⊢
      rw [hx.remove_mem, if_neg (by omega), if_neg (by simp only [Pmalloc.next]; omega),
        if_neg (by omega)]
    · intro y hy hhead
      have hxy := hapart y hy
      have hpy := fun hne => hprev_apart hne y hy
      have hyn : h.next x ≠ 0 → y ≠ h.next x := by
        rintro hne rfl
        rw [link_of_ne hne] at hnext
        exact hhead hnext.symm
      simp only [Pmalloc.prev] at hpy ⊢
      rw [hx.remove_mem, if_neg (by omega), if_neg (by omega),
        if_neg (by simp only [Pmalloc.prev]; omega)]
    · intro y hlast
      have hy : y ∈ l ++ m := List.mem_append_left m (List.mem_of_getLast? hlast)
      obtain ⟨rfl, hne⟩ := link_eq_some.1 (hprev.trans hlast)
      have hxy := hapart _ hy
      have hny := fun hne => hnext_apart hne _ hy
      simp only [Pmalloc.next]
      rw [hx.remove_mem, if_neg (by omega), if_neg (by omega), if_pos ⟨hne, rfl⟩]
      exact hnext
    · intro y hhead
      have hy : y ∈ l ++ m := List.mem_append_right l (List.mem_of_head? hhead)
      obtain ⟨rfl, hne⟩ := link_eq_some.1 (hnext.trans hhead)
      have hxy := hapart _ hy
      simp only [Pmalloc.prev]
      rw [hx.remove_mem, if_neg (by omega), if_pos ⟨hne, rfl⟩]
      exact hprev
  · intro y hy
    have hy' : y ∈ l ++ x :: m := by
      rcases List.mem_append.1 hy with hy | hy <;> simp [hy]
    have ho := hl.ours y hy'
    rw [hx.remove_ours, hx.remove_ours]
    constructor
    · split
      · rfl
      · exact ho.1
    · split
      · rfl
      · exact ho.2

theorem itemRemove_update
    (hl : Linked h r (l ++ x :: m)) (hs : Spaced (l ++ x :: m)) :
    LinkUpdate r (l ++ x :: m) h (pmallocItemRemove r h x) := by
  have hx := hl.loose hs
  obtain ⟨hprev, hnext⟩ := hl.fields
  constructor
  · intro a ha
    have hxa := ha x (by simp)
    have hna : ¬ (h.next x ≠ 0 ∧ a = h.next x) := by
      rintro ⟨hne, heq⟩
      rw [link_of_ne hne] at hnext
      exact (ha _ (by simp [List.mem_of_head? hnext.symm])).1 heq
    have hpa : ¬ (h.prev x ≠ 0 ∧ a = h.prev x + 4) := by
      rintro ⟨hne, heq⟩
      rw [link_of_ne hne] at hprev
      exact (ha _ (by simp [List.mem_of_getLast? hprev.symm])).2 heq
    constructor
    · rw [hx.remove_mem, if_neg (by omega), if_neg hna, if_neg hpa]
    · rw [hx.remove_ours, if_neg (by omega)]
  · intro r' hr
    rw [hx.remove_root, if_neg (by simp [hr])]
  · exact hx.remove_wild

/-- A node taken off its list has no neighbours. -/
theorem itemRemove_detached
    (hl : Linked h r (l ++ x :: m)) (hs : Spaced (l ++ x :: m)) :
    Detached (pmallocItemRemove r h x) x := by
  have hx := hl.loose hs
  constructor
  · simp only [Pmalloc.prev]
    rw [hx.remove_mem, if_pos (.inl rfl)]
  · simp only [Pmalloc.next]
    rw [hx.remove_mem, if_pos (.inr rfl)]
  · rw [hx.remove_ours, if_pos (.inl (.inl rfl))]
  · rw [hx.remove_ours, if_pos (.inl (.inr rfl))]

end Remove

section Insert

/-- A node has been put between `l` and `m`. -/
structure Spliced
    (r : Root) (l : List Nat) (x : Nat) (m : List Nat) (h h' : Pmalloc) : Prop where
  prev : link (h'.prev x) = l.getLast?
  next : link (h'.next x) = m.head?
  before : ∀ y, l.getLast? = some y → h'.next y = x
  after : ∀ y, m.head? = some y → h'.prev y = x
  same : ∀ a, a ≠ x → a ≠ x + 4 →
    (∀ y, l.getLast? = some y → a ≠ y + 4) → (∀ y, m.head? = some y → a ≠ y) →
    SameAt h h' a
  kept : ∀ a, h.ours a = true → h'.ours a = true
  ours : h'.ours x = true ∧ h'.ours (x + 4) = true
  root : link (h'.root r) = (l ++ x :: m).head?
  roots : ∀ r', r' ≠ r → h'.root r' = h.root r'
  wild : h'.wild = h.wild

theorem Spliced.update
    (hsp : Spliced r l x m h h') : LinkUpdate r (l ++ x :: m) h h' := by
  refine ⟨?_, hsp.roots, hsp.wild⟩
  intro a ha
  have hxa := ha x (by simp)
  refine hsp.same a hxa.1 hxa.2 ?_ ?_
  · intro y hy
    exact (ha y (by simp [List.mem_of_getLast? hy])).2
  · intro y hy
    exact (ha y (by simp [List.mem_of_head? hy])).1

theorem Spliced.linked
    (hsp : Spliced r l x m h h')
    (hl : Linked h r (l ++ m)) (hs : Spaced (l ++ x :: m)) (hx : x ≠ 0) :
    Linked h' r (l ++ x :: m) := by
  have hapart : ∀ y ∈ l ++ m, y + 16 ≤ x ∨ x + 16 ≤ y := by
    intro y hy
    rcases List.mem_append.1 hy with hy | hy
    · exact .inl (hs.left hy)
    · exact .inr (hs.right hy)
  refine ⟨hsp.root, ?_, ?_⟩
  · refine hl.chain.link hs.without.nodup ?_ ?_ ?_ ?_ hsp.prev hsp.next
    · intro y hy hlast
      have hxy := hapart y hy
      have hsame := hsp.same (y + 4) (by omega) (by omega) ?_ ?_
      · simp only [Pmalloc.next, hsame.1]
      · rintro z hz heq
        obtain rfl : y = z := by omega
        exact hlast hz
      · intro z hz
        have hz' : z ∈ l ++ m := List.mem_append_right l (List.mem_of_head? hz)
        have hyz := hs.without.apart hy hz'
        omega
    · intro y hy hhead
      have hxy := hapart y hy
      have hsame := hsp.same y (by omega) (by omega) ?_ ?_
      · simp only [Pmalloc.prev, hsame.1]
      · intro z hz
        have hz' : z ∈ l ++ m := List.mem_append_left m (List.mem_of_getLast? hz)
        have hyz := hs.without.apart hy hz'
        omega
      · rintro z hz rfl
        exact hhead hz
    · intro y hy
      simp only [hsp.before y hy, link_of_ne hx]
    · intro y hy
      simp only [hsp.after y hy, link_of_ne hx]
  · intro y hy
    rcases List.mem_append.1 hy with hyl | hyx
    · have ho := hl.ours y (List.mem_append_left m hyl)
      exact ⟨hsp.kept y ho.1, hsp.kept (y + 4) ho.2⟩
    · rcases List.mem_cons.1 hyx with rfl | hym
      · exact hsp.ours
      · have ho := hl.ours y (List.mem_append_right l hym)
        exact ⟨hsp.kept y ho.1, hsp.kept (y + 4) ho.2⟩

/-- The search for the place ends at the last node below the new one. -/
theorem place_meets
    {fuel : Nat}
    (hl : Linked h r (l ++ m)) (hs : Spaced (l ++ x :: m)) (hne : l ≠ [])
    (hfuel : x < fuel) :
    ∃ c, run (placeBody x) fuel (h, h.root r) = some (h, c) ∧ l.getLast? = some c := by
  have hroot : h.root r ∈ l := by
    obtain ⟨y, l', rfl⟩ := List.exists_cons_of_ne_nil hne
    have hy : h.root r = y := (link_eq_some.1 hl.root).1
    simp [hy]
  have hloop : ∃ out, run (placeBody x) fuel (h, h.root r) = some out ∧
      out.1 = h ∧ l.getLast? = some out.2 := by
    refine run_meets (fun s : Pmalloc × Nat => s.1 = h ∧ s.2 ∈ l)
      (fun out : Pmalloc × Nat => out.1 = h ∧ l.getLast? = some out.2)
      (fun s : Pmalloc × Nat => x - s.2)
      ?_ ⟨rfl, hroot⟩ (Nat.lt_of_le_of_lt (Nat.sub_le x _) hfuel)
    rintro ⟨h₁, c⟩ ⟨rfl, hc⟩
    simp only at hc hl hroot
    obtain ⟨u, v, rfl⟩ := List.append_of_mem hc
    have hcx := hs.left hc
    have hl' : Linked h₁ r (u ++ c :: (v ++ m)) := by simpa using hl
    have hnext := hl'.fields.2
    have ho := (hl'.ours c (by simp)).2
    cases v with
    | nil =>
        -- The last node of `l`: what follows is at or above the new node.
        refine .inl ⟨(h₁, c), ?_, rfl, by simp⟩
        have hstop : ¬ (h₁.next c ≠ 0 ∧ h₁.next c < x) := by
          rintro ⟨hn, hlt⟩
          rw [link_of_ne hn] at hnext
          have hge := hs.right (List.mem_of_head? hnext.symm)
          omega
        simp only [placeBody, hstop, if_false]
    | cons d v =>
        obtain ⟨hn, hd⟩ := link_eq_some.1 hnext
        have hdl : d ∈ u ++ c :: d :: v := by simp
        have hdx := hs.left hdl
        have hcd : c + 16 ≤ d := by
          have hs' := (List.pairwise_append.1 hs).1
          exact Spaced.right hs' (by simp)
        refine .inr ⟨(h₁, d), ?_, ⟨rfl, hdl⟩, by simp only; omega⟩
        have hgo : h₁.next c ≠ 0 ∧ h₁.next c < x := by omega
        simp only [placeBody]
        rw [if_pos hgo, follow_ours ho, hn]
  obtain ⟨⟨h₁, c⟩, hrun, rfl, hc⟩ := hloop
  exact ⟨c, hrun, hc⟩

/-- A node put on an empty list. -/
theorem spliced_alone (hx : x ≠ 0) :
    Spliced r [] x [] h (((h.setRoot r x).store x 0).store (x + 4) 0) := by
  constructor
  case prev =>
    simp [Pmalloc.prev, store_mem]
  case next =>
    simp [Pmalloc.next, store_mem]
  case before => simp
  case after => simp
  case same =>
    intro a ha ha' _ _
    simp [SameAt, store_mem, store_ours, ha, ha']
  case kept =>
    intro a ha
    simp [store_ours, ha]
  case ours => simp [store_ours]
  case root =>
    rw [store_root, store_root, setRoot_root, if_pos rfl]
    exact link_of_ne hx
  case roots =>
    intro r' hr
    rw [store_root, store_root, setRoot_root, if_neg hr]
  case wild => simp

/-- A node put before the root: its `prev` was `NULL` already. -/
theorem spliced_front
    {y : Nat}
    (hy : m.head? = some y) (hxy : x + 16 ≤ y) (hx : x ≠ 0)
    (hprev : h.prev x = 0) (ho : h.ours x = true) :
    Spliced r [] x m h (((h.store y x).store (x + 4) y).setRoot r x) := by
  have hne : x ≠ y := by omega
  have hne' : x ≠ x + 4 := by omega
  constructor
  case prev =>
    simp only [Pmalloc.prev, setRoot_mem, store_mem] at hprev ⊢
    rw [if_neg hne', if_neg hne, hprev]
    rfl
  case next =>
    simp only [Pmalloc.next, setRoot_mem, store_mem, if_true]
    rw [hy, link_of_ne (by omega)]
  case before => simp
  case after =>
    intro z hz
    obtain rfl : y = z := by simpa [hy] using hz
    have hne'' : y ≠ x + 4 := by omega
    simp [Pmalloc.prev, store_mem, hne'']
  case same =>
    intro a _ ha' _ hay
    have hay' := hay y hy
    simp [SameAt, store_mem, store_ours, ha', hay']
  case kept =>
    intro a ha
    simp [store_ours, ha]
  case ours => simp [store_ours, ho]
  case root =>
    rw [setRoot_root, if_pos rfl]
    exact link_of_ne hx
  case roots =>
    intro r' hr
    rw [setRoot_root, if_neg hr, store_root, store_root]
  case wild => simp

/-- A node put after `c`: at the end its `next` was `NULL` already. -/
theorem spliced_after
    {c : Nat}
    (hlast : l.getLast? = some c) (hroot : link (h.root r) = l.head?)
    (hnext : link (h.next c) = m.head?) (hc : c ≠ 0) (ho : h.ours (c + 4) = true)
    (hcx : c + 16 ≤ x) (hxm : ∀ y, m.head? = some y → x + 16 ≤ y)
    (hback : m = [] → h.next x = 0 ∧ h.ours (x + 4) = true) :
    Spliced r l x m h (linkAfter h c x) := by
  have hhead : (l ++ x :: m).head? = l.head? := by
    cases l with
    | nil => simp at hlast
    | cons y l => rfl
  by_cases hn : h.next c = 0
  · have hm : m = [] := by
      rw [hn, link_zero] at hnext
      exact List.head?_eq_none_iff.1 hnext.symm
    subst hm
    obtain ⟨hxn, hxo⟩ := hback rfl
    have hres : linkAfter h c x = (h.store x c).store (c + 4) x := if_pos hn
    rw [hres]
    constructor
    case prev =>
      have hne : x ≠ c + 4 := by omega
      simp [Pmalloc.prev, store_mem, hne, hlast, link_of_ne hc]
    case next =>
      have hne : x + 4 ≠ c + 4 := by omega
      have hne' : x + 4 ≠ x := by omega
      simp only [Pmalloc.next, store_mem] at hxn ⊢
      rw [if_neg hne, if_neg hne', hxn]
      rfl
    case before =>
      intro y hy
      obtain rfl : c = y := by simpa [hlast] using hy
      simp [Pmalloc.next, store_mem]
    case after => simp
    case same =>
      intro a ha _ hla _
      have hac := hla c hlast
      simp [SameAt, store_mem, store_ours, ha, hac]
    case kept =>
      intro a ha
      simp [store_ours, ha]
    case ours => simp [store_ours, hxo]
    case root =>
      rw [store_root, store_root, hroot, hhead]
    case roots => simp
    case wild => simp
  · have hy : m.head? = some (h.next c) := by rw [← hnext, link_of_ne hn]
    have hxy := hxm _ hy
    have hres : linkAfter h c x =
        (((h.store (c + 4) x).store x c).store (x + 4) (h.next c)).store (h.next c) x := by
      simp only [linkAfter, if_neg hn, follow_ours ho]
    rw [hres]
    generalize h.next c = y at hy hxy
    constructor
    case prev =>
      have hne : x ≠ y := by omega
      simp [Pmalloc.prev, store_mem, hne, hlast, link_of_ne hc]
    case next =>
      have hne : x + 4 ≠ y := by omega
      have hne' : y ≠ 0 := by omega
      simp [Pmalloc.next, store_mem, hne, hy, link_of_ne hne']
    case before =>
      intro z hz
      obtain rfl : c = z := by simpa [hlast] using hz
      have h₁ : c + 4 ≠ y := by omega
      have h₂ : c ≠ x := by omega
      have h₃ : c + 4 ≠ x := by omega
      simp [Pmalloc.next, store_mem, h₁, h₂, h₃]
    case after =>
      intro z hz
      obtain rfl : y = z := by simpa [hy] using hz
      simp [Pmalloc.prev, store_mem]
    case same =>
      intro a ha ha' hla hma
      have hac := hla c hlast
      have hay := hma y hy
      simp [SameAt, store_mem, store_ours, ha, ha', hac, hay]
    case kept =>
      intro a ha
      simp [store_ours, ha]
    case ours => simp [store_ours]
    case root =>
      simp [hroot, hhead]
    case roots => simp
    case wild => simp

/-- `pmalloc_item_insert` puts a node in its place. -/
theorem itemInsert_spliced
    {fuel : Nat}
    (hl : Linked h r (l ++ m)) (hs : Spaced (l ++ x :: m)) (hx : x ≠ 0)
    (hfront : l = [] → m ≠ [] → h.prev x = 0 ∧ h.ours x = true)
    (hback : l ≠ [] → m = [] → h.next x = 0 ∧ h.ours (x + 4) = true)
    (hfuel : x < fuel) :
    ∃ h', pmallocItemInsert fuel r h x = some h' ∧ Spliced r l x m h h' := by
  by_cases hroot : h.root r = 0
  · have hnil : l ++ m = [] := by
      have hhead := hl.root
      rw [hroot, link_zero] at hhead
      exact List.head?_eq_none_iff.1 hhead.symm
    obtain ⟨rfl, rfl⟩ := List.append_eq_nil_iff.1 hnil
    exact ⟨_, if_pos hroot, spliced_alone hx⟩
  · cases l with
    | nil =>
        obtain ⟨hprev, ho⟩ := hfront rfl (by rintro rfl; exact hroot (link_eq_none.1 hl.root))
        obtain ⟨y, hy⟩ : ∃ y, m.head? = some y := ⟨_, hl.root.symm.trans (link_of_ne hroot)⟩
        have hxy : x + 16 ≤ y := hs.right (List.mem_of_head? hy)
        obtain rfl : h.root r = y := (link_eq_some.1 (hl.root.trans hy)).1
        refine ⟨_, ?_, spliced_front hy hxy hx hprev ho⟩
        rw [pmallocItemInsert, if_neg hroot, if_pos (by omega)]
    | cons y l =>
        have hne : y :: l ≠ [] := List.cons_ne_nil y l
        obtain ⟨c, hrun, hlast⟩ := place_meets hl hs hne hfuel
        have hcmem := List.mem_of_getLast? hlast
        obtain ⟨u, hu⟩ : ∃ u, y :: l = u ++ [c] := List.getLast?_eq_some_iff.1 hlast
        have hl' : Linked h r (u ++ c :: m) := by
          rw [hu] at hl
          simpa using hl
        have hyx : h.root r + 16 ≤ x := by
          rw [(link_eq_some.1 hl.root).1]
          exact hs.left (List.mem_cons_self)
        refine ⟨linkAfter h c x, ?_, ?_⟩
        · rw [pmallocItemInsert, if_neg hroot, if_neg (by omega), hrun]
          rfl
        · exact spliced_after hlast hl.root hl'.fields.2 (hl'.ne_zero (by simp))
            (hl'.ours c (by simp)).2 (hs.left hcmem)
            (fun z hz => hs.right (List.mem_of_head? hz)) (hback hne)

end Insert

end Heap
end Cubiboot
