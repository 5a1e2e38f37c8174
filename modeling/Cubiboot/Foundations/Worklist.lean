import Mathlib.Data.List.Nodup
import Mathlib.Logic.Relation

/-!
# Walks with a stack of what is left

`Walk children stack visited` takes the top off a stack, visits it and puts its
children in its place, until nothing is left.  It visits what is below the stack
(`Walk.mem_iff`), and in a forest nothing twice (`Walk.nodup`).

`pendingSize` bounds what is left to visit where children are less deep than their
parents and not too many, so that every such walk ends.

Results: `below_iff`, one level of a tree; `pendingSize_children` and
`pendingSize_sublist`, how what is left gets less; `exists_walk`, that a walk comes to
its end; and `Walk.mem_iff` and `Walk.nodup`, by induction on the walk.
-/

namespace Cubiboot
namespace Worklist

universe u

variable {α : Type u} {children : α → List α} {a b c : α} {stack visited : List α}

/-- A walk from a stack, and what it visits. -/
inductive Walk (children : α → List α) : List α → List α → Prop
  | done : Walk children [] []
  | visit {a : α} {stack visited : List α}
      (rest : Walk children (children a ++ stack) visited) :
      Walk children (a :: stack) (a :: visited)

/-- From one stack to the next. -/
def Pops (children : α → List α) (stack next : List α) : Prop :=
  ∃ a rest, stack = a :: rest ∧ next = children a ++ rest

/-- `b` is `a`, or is below it. -/
def Below (children : α → List α) (a b : α) : Prop :=
  Relation.ReflTransGen (fun x y => y ∈ children x) a b

theorem Below.refl : Below children a a :=
  Relation.ReflTransGen.refl

theorem Below.head (h : b ∈ children a) (hc : Below children b c) : Below children a c :=
  Relation.ReflTransGen.head h hc

/-- What is below `a` is `a`, or below a child. -/
theorem below_iff : Below children a c ↔ a = c ∨ ∃ b ∈ children a, Below children b c := by
  constructor
  · intro h
    rcases Relation.ReflTransGen.cases_head h with heq | ⟨b, hb, hc⟩
    · exact Or.inl heq
    · exact Or.inr ⟨b, hb, hc⟩
  · rintro (rfl | ⟨b, hb, hc⟩)
    · exact Below.refl
    · exact Below.head hb hc

/-- A walk visits what is below its stack. -/
theorem Walk.mem_iff (h : Walk children stack visited) (x : α) :
    x ∈ visited ↔ ∃ a ∈ stack, Below children a x := by
  induction h with
  | done =>
      simp
  | @visit a stack visited rest ih =>
      rw [List.mem_cons, ih]
      constructor
      · rintro (rfl | ⟨b, hb, hx⟩)
        · exact ⟨x, List.mem_cons_self, Below.refl⟩
        · rcases List.mem_append.1 hb with hchild | hstack
          · exact ⟨a, List.mem_cons_self, Below.head hchild hx⟩
          · exact ⟨b, List.mem_cons_of_mem _ hstack, hx⟩
      · rintro ⟨b, hb, hx⟩
        rcases List.mem_cons.1 hb with rfl | hstack
        · rcases below_iff.1 hx with heq | ⟨c, hc, hx⟩
          · exact Or.inl heq.symm
          · exact Or.inr ⟨c, List.mem_append_left _ hc, hx⟩
        · exact Or.inr ⟨b, List.mem_append_right _ hstack, hx⟩

/-- Nothing is below both. -/
def Apart (children : α → List α) (a b : α) : Prop :=
  ∀ c, Below children a c → ¬ Below children b c

/-- What is below `a` is a tree: no child leads back, and nothing is below two children. -/
structure IsTree (children : α → List α) (a : α) : Prop where
  acyclic : ∀ x, Below children a x → ∀ b ∈ children x, ¬ Below children b x
  apart : ∀ x, Below children a x → (children x).Pairwise (Apart children)

theorem IsTree.child (h : IsTree children a) (hb : b ∈ children a) : IsTree children b :=
  ⟨fun x hx => h.acyclic x (Below.head hb hx), fun x hx => h.apart x (Below.head hb hx)⟩

/-- In trees that are apart nothing is visited twice. -/
theorem Walk.nodup (h : Walk children stack visited)
    (htrees : ∀ a ∈ stack, IsTree children a) (hapart : stack.Pairwise (Apart children)) :
    visited.Nodup := by
  induction h with
  | done =>
      exact List.nodup_nil
  | @visit a stack visited rest ih =>
      obtain ⟨hothers, hstack⟩ := List.pairwise_cons.1 hapart
      have htree := htrees a List.mem_cons_self
      rw [List.nodup_cons]
      constructor
      · intro hagain
        obtain ⟨b, hb, hx⟩ := (rest.mem_iff a).1 hagain
        rcases List.mem_append.1 hb with hchild | hother
        · exact htree.acyclic a Below.refl b hchild hx
        · exact hothers b hother a Below.refl hx
      · refine ih (fun b hb => ?_) (List.pairwise_append.2 ⟨htree.apart a Below.refl, hstack, ?_⟩)
        · rcases List.mem_append.1 hb with hchild | hother
          · exact htree.child hchild
          · exact htrees b (List.mem_cons_of_mem _ hother)
        · intro b hb d hd c hc
          exact hothers d hd c (Below.head hb hc)

/-- How much there is below something of this depth, with `n` children each. -/
def treeSize (n : Nat) : Nat → Nat
  | 0 => 1
  | depth + 1 => n * treeSize n depth + 1

/-- How much there is below a stack, at most. -/
def pendingSize (n : Nat) (depth : α → Nat) : List α → Nat
  | [] => 0
  | a :: stack => treeSize n (depth a) + pendingSize n depth stack

variable {n : Nat} {depth : α → Nat}

theorem treeSize_mono {d d' : Nat} (h : d ≤ d') : treeSize n d ≤ treeSize n d' := by
  induction d' generalizing d with
  | zero =>
      obtain rfl := Nat.le_zero.1 h
      exact Nat.le_refl _
  | succ d' ih =>
      cases d with
      | zero =>
          rw [treeSize, treeSize]
          exact Nat.le_add_left 1 _
      | succ d =>
          have hle := Nat.mul_le_mul_left n (ih (Nat.le_of_succ_le_succ h))
          rw [treeSize, treeSize]
          omega

@[simp] theorem pendingSize_append (l l' : List α) :
    pendingSize n depth (l ++ l') = pendingSize n depth l + pendingSize n depth l' := by
  induction l with
  | nil =>
      simp [pendingSize]
  | cons a l ih =>
      rw [List.cons_append, pendingSize, pendingSize, ih, Nat.add_assoc]

/-- Less is left where less is on the stack. -/
theorem pendingSize_sublist {l l' : List α} (h : l.Sublist l') :
    pendingSize n depth l ≤ pendingSize n depth l' := by
  induction h with
  | slnil =>
      exact Nat.le_refl _
  | cons a _ ih =>
      rw [pendingSize]
      omega
  | cons_cons a _ ih =>
      rw [pendingSize, pendingSize]
      omega

/-- Less deep children are less than their parent, if there are not too many. -/
theorem pendingSize_children {l : List α} (hlen : l.length ≤ n)
    (hdepth : ∀ b ∈ l, depth b < depth a) : pendingSize n depth l < treeSize n (depth a) := by
  cases hd : depth a with
  | zero =>
      have hnil : l = [] := by
        refine List.eq_nil_iff_forall_not_mem.2 fun b hb => ?_
        have hlt := hdepth b hb
        omega
      rw [hnil]
      exact Nat.one_pos
  | succ d =>
      have hbound : ∀ l : List α, (∀ b ∈ l, depth b < depth a) →
          pendingSize n depth l ≤ l.length * treeSize n d := by
        intro l hl
        induction l with
        | nil =>
            exact Nat.le_of_eq (Nat.zero_mul _).symm
        | cons b l ih =>
            have hfirst := hl b List.mem_cons_self
            have hsize : treeSize n (depth b) ≤ treeSize n d := treeSize_mono (by omega)
            have hrest := ih fun b hb => hl b (List.mem_cons_of_mem _ hb)
            rw [pendingSize, List.length_cons, Nat.add_mul, Nat.one_mul]
            omega
      have hall := hbound l hdepth
      have hmany := Nat.mul_le_mul_right (treeSize n d) hlen
      rw [treeSize]
      omega

/-- There is a walk from a stack whose trees end. -/
theorem exists_walk (Inv : α → Prop) (depth : α → Nat)
    (hinv : ∀ a, Inv a → ∀ b ∈ children a, Inv b ∧ depth b < depth a)
    (hlen : ∀ a, Inv a → (children a).length ≤ n) (stack : List α)
    (hstack : ∀ a ∈ stack, Inv a) : ∃ visited, Walk children stack visited := by
  obtain ⟨size, hsize⟩ : ∃ size, size = pendingSize n depth stack := ⟨_, rfl⟩
  induction size using Nat.strongRecOn generalizing stack with
  | _ size ih =>
      cases stack with
      | nil =>
          exact ⟨[], .done⟩
      | cons a stack =>
          have ha := hstack a List.mem_cons_self
          have hless := pendingSize_children (hlen a ha) fun b hb => (hinv a ha b hb).2
          have hnext : pendingSize n depth (children a ++ stack) < size := by
            rw [hsize, pendingSize_append, pendingSize]
            omega
          have hkept : ∀ b ∈ children a ++ stack, Inv b := by
            intro b hb
            rcases List.mem_append.1 hb with hchild | hother
            · exact (hinv a ha b hchild).1
            · exact hstack b (List.mem_cons_of_mem _ hother)
          obtain ⟨visited, hwalk⟩ := ih _ hnext _ hkept rfl
          exact ⟨a :: visited, .visit hwalk⟩

end Worklist
end Cubiboot
