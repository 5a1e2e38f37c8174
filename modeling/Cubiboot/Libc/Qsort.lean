import Cubiboot.Foundations.FuelLoop
import Cubiboot.Foundations.Rearranged

/-!
# `qsort`

`qsort.c` of the C library in `patches`: the sort of Bentley and McIlroy, with a stack of
parameters in place of most of its recursion.

Elements are counted in place of bytes, so `es` is `1`, and the array that a caller passes
is an `Array`: a comparison or an exchange outside of it has no result.  What
`swapfunc` moves bytewise or in words is one element.  `qsort` calls itself when its stack
is full; `calls` bounds how deep.

The steps of the source are functions of their own: the choice of the pivot, the two
scans, the exchange of the equal elements, the insertion sort of short parts, and the
pass that puts them together and leaves two parts to be sorted.
-/

namespace Cubiboot
namespace Libc

open Sorting

variable {α : Type}

section Elements

variable (cmp : α → α → Int)

/-- `CMP` of the elements at two places. -/
def cmpAt (xs : Array α) (x y : Nat) : Option Int := do
  let vx ← xs[x]?
  let vy ← xs[y]?
  some (cmp vx vy)

/-- `swap`. -/
def swapAt (xs : Array α) (a b : Nat) : Option (Array α) :=
  if h : a < xs.size ∧ b < xs.size then some (xs.swap a b h.1 h.2) else none

/-- `vecswap` of `n` elements. -/
def vecswap (xs : Array α) (a b n : Nat) : Option (Array α) :=
  (List.range n).foldlM (fun xs i => swapAt xs (a + i) (b + i)) xs

/-- `med3`. -/
def med3 (xs : Array α) (a b c : Nat) : Option Nat := do
  let ab ← cmpAt cmp xs a b
  let bc ← cmpAt cmp xs b c
  if ab < 0 then
    if bc < 0 then some b
    else do
      let ac ← cmpAt cmp xs a c
      some (if ac < 0 then c else a)
  else
    if 0 < bc then some b
    else do
      let ac ← cmpAt cmp xs a c
      some (if ac < 0 then a else c)

/-- The element at `a + k` moves down to its place. -/
def insertDown (a : Nat) : Nat → Array α → Option (Array α)
  | 0, xs => some xs
  | k + 1, xs => do
      let r ← cmpAt cmp xs (a + k) (a + (k + 1))
      if 0 < r then do
        let xs ← swapAt xs (a + (k + 1)) (a + k)
        insertDown a k xs
      else some xs

/-- The insertion sort. -/
def insertionSort (xs : Array α) (p : Part) : Option (Array α) :=
  (List.range' 1 (p.count - 1)).foldlM (fun xs k => insertDown cmp p.base k xs) xs

/-- The element that becomes the pivot. -/
def selectPivot (xs : Array α) (p : Part) : Option Nat :=
  let pm := p.base + p.count / 2
  if 7 < p.count then
    let pl := p.base
    let pn := p.base + (p.count - 1)
    if 40 < p.count then do
      let d := p.count / 8
      let pl ← med3 cmp xs pl (pl + d) (pl + 2 * d)
      let pm ← med3 cmp xs (pm - d) pm (pm + d)
      let pn ← med3 cmp xs (pn - 2 * d) (pn - d) pn
      med3 cmp xs pl pm pn
    else med3 cmp xs pl pm pn
  else some pm

end Elements

/-- The array and the variables of the partition. -/
structure Partition (α : Type) where
  mem : Array α
  pa : Nat
  pb : Nat
  pc : Nat
  pd : Nat
  swapCnt : Bool

/-- The array and the parameters of the sort. -/
structure SortState (α : Type) where
  mem : Array α
  part : Part
  parameterStack : List Part

/-- `PARAMETER_STACK_LEVELS`. -/
def parameterStackLevels : Nat := 8

section Passes

variable (cmp : α → α → Int)

/-- Scan left to right, stopping at the first element that is greater than the pivot. -/
def scanRightwards (a : Nat) (s : Partition α) : Option (Partition α ⊕ Partition α) :=
  if s.pb ≤ s.pc then do
    let r ← cmpAt cmp s.mem s.pb a
    if r ≤ 0 then
      if r = 0 then do
        let mem ← swapAt s.mem s.pa s.pb
        some (.inl { s with mem := mem, pa := s.pa + 1, pb := s.pb + 1, swapCnt := true })
      else some (.inl { s with pb := s.pb + 1 })
    else some (.inr s)
  else some (.inr s)

/-- Scan right to left, stopping at the first element that is less than the pivot. -/
def scanLeftwards (a : Nat) (s : Partition α) : Option (Partition α ⊕ Partition α) :=
  if s.pb ≤ s.pc then do
    let r ← cmpAt cmp s.mem s.pc a
    if 0 ≤ r then
      if r = 0 then do
        let mem ← swapAt s.mem s.pc s.pd
        some (.inl { s with mem := mem, pc := s.pc - 1, pd := s.pd - 1, swapCnt := true })
      else some (.inl { s with pc := s.pc - 1 })
    else some (.inr s)
  else some (.inr s)

/-- Both scans, and the exchange of the two elements they have found. -/
def partitionPass (p : Part) (s : Partition α) : Option (Partition α ⊕ Partition α) := do
  let s ← FuelLoop.run (scanRightwards cmp p.base) (p.count + 1) s
  let s ← FuelLoop.run (scanLeftwards cmp p.base) (p.count + 1) s
  if s.pc < s.pb then some (.inr s)
  else do
    let mem ← swapAt s.mem s.pb s.pc
    some (.inl { s with mem := mem, pb := s.pb + 1, pc := s.pc - 1, swapCnt := true })

/-- The pivot goes to the left and the array is sorted relative to it. -/
def partition (xs : Array α) (p : Part) : Option (Partition α) := do
  let pm ← selectPivot cmp xs p
  let xs ← swapAt xs p.base pm
  FuelLoop.run (partitionPass cmp p) (p.count + 1)
    ⟨xs, p.base + 1, p.base + 1, p.base + (p.count - 1), p.base + (p.count - 1), false⟩

/-- The elements equal to the pivot go to the middle; the parts beside them. -/
def gather (p : Part) (s : Partition α) : Option (Array α × Part × Part) := do
  let pn := p.stop
  let r := min (s.pa - p.base) (s.pb - s.pa)
  let xs ← vecswap s.mem p.base (s.pb - r) r
  let r := min (s.pd - s.pc) (pn - s.pd - 1)
  let xs ← vecswap xs s.pb (pn - r) r
  let d := s.pb - s.pa
  let r := s.pd - s.pc
  some (xs, ⟨p.base, d⟩, ⟨pn - r, r⟩)

/-- `pop`. -/
def pop (xs : Array α) : List Part → SortState α ⊕ Array α
  | [] => .inr xs
  | p :: stack => .inl ⟨xs, p, stack⟩

/-- The larger part is sorted next if it needs to be. -/
def iterate (xs : Array α) (larger : Part) (stack : List Part) : SortState α ⊕ Array α :=
  if 1 < larger.count then .inl ⟨xs, larger, stack⟩ else pop xs stack

/-- The parts left and right of the pivot, the larger one first. -/
def largerFirst (left right : Part) : Part × Part :=
  if left.count < right.count then (right, left) else (left, right)

/-- From `loop` to the next `goto`; `self` is the call of `qsort` by itself. -/
def qsortPass (self : Array α → Part → Option (Array α)) (s : SortState α) :
    Option (SortState α ⊕ Array α) :=
  if s.part.count < 7 then do
    let xs ← insertionSort cmp s.mem s.part
    some (pop xs s.parameterStack)
  else do
    let t ← partition cmp s.mem s.part
    if t.swapCnt then do
      let (xs, left, right) ← gather s.part t
      let (larger, smaller) := largerFirst left right
      if 1 < smaller.count then
        if s.parameterStack.length < parameterStackLevels then
          some (.inl ⟨xs, smaller, larger :: s.parameterStack⟩)
        else do
          let xs ← self xs smaller
          some (iterate xs larger s.parameterStack)
      else some (iterate xs larger s.parameterStack)
    else do
      let xs ← insertionSort cmp t.mem s.part
      some (pop xs s.parameterStack)

/-- `qsort` of a part of the array, with at most `calls` calls in one another. -/
def qsort : Nat → Array α → Part → Option (Array α)
  | 0, _, _ => none
  | calls + 1, xs, p => FuelLoop.run (qsortPass cmp (qsort calls)) (2 * p.count + 2) ⟨xs, p, []⟩

end Passes

end Libc
end Cubiboot
