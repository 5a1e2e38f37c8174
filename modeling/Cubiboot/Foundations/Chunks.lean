import Mathlib.Algebra.Group.Nat.Defs
import Mathlib.Data.List.Forall2
import Mathlib.Tactic.Common

/-!
# Files of blocks of one size

`chunk c i xs` is the slice `xs[i*c:(i+1)*c]`.  A file that is put together from blocks of
`c` elements has these as its chunks (`chunks_flatten`), and chunks enough to cover a file
are the file again (`chunks_cover`).

A number is written to `w` bytes with the lowest one first (`toBytes`), and read back
(`ofBytes`).

Results: `chunks_flatten`, `chunk_flatten_append` and `chunks_cover`, of files and their
blocks; `ofBytes_toBytes`, `toBytes_length` and `ofBytes_lt`, of numbers and their
bytes.
-/

namespace Cubiboot
namespace Chunks

universe u

variable {α : Type u}

/-- The slice `xs[i*c:(i+1)*c]`. -/
def chunk (c i : Nat) (xs : List α) : List α :=
  (xs.drop (i * c)).take c

/-- All chunks of full length. -/
def chunks (c : Nat) (xs : List α) : List (List α) :=
  (List.range (xs.length / c)).map fun i => chunk c i xs

section Chunk

variable {c i : Nat} {xs rest : List α} {ls : List (List α)}

theorem chunk_length_le : (chunk c i xs).length ≤ c := by
  rw [chunk, List.length_take]
  exact Nat.min_le_left _ _

theorem chunk_length (h : (i + 1) * c ≤ xs.length) : (chunk c i xs).length = c := by
  rw [chunk, List.length_take, List.length_drop, Nat.succ_mul] at *
  omega

/-- The first chunk is the front, the others are those of what follows it. -/
theorem chunk_append_zero {l : List α} (h : l.length = c) : chunk c 0 (l ++ rest) = l := by
  rw [chunk, Nat.zero_mul, List.drop_zero, List.take_left' h]

theorem chunk_append_succ {l : List α} (h : l.length = c) :
    chunk c (i + 1) (l ++ rest) = chunk c i rest := by
  rw [chunk, chunk, Nat.succ_mul, Nat.add_comm (i * c) c, ← List.drop_drop, List.drop_left' h]

/-- A chunk of blocks that are put together is one of them. -/
theorem chunk_flatten_append (h : ∀ l ∈ ls, l.length = c) {l : List α} (hi : ls[i]? = some l) :
    chunk c i (ls.flatten ++ rest) = l := by
  induction ls generalizing i with
  | nil => cases hi
  | cons l' ls ih =>
      have hl' := h l' List.mem_cons_self
      rw [List.flatten_cons, List.append_assoc]
      cases i with
      | zero =>
          obtain rfl := Option.some.inj hi
          exact chunk_append_zero hl'
      | succ i =>
          rw [chunk_append_succ hl']
          exact ih (fun k hk => h k (List.mem_cons_of_mem _ hk)) hi

theorem length_flatten_of (h : ∀ l ∈ ls, l.length = c) :
    ls.flatten.length = ls.length * c := by
  induction ls with
  | nil => rw [List.flatten_nil, List.length_nil, List.length_nil, Nat.zero_mul]
  | cons l ls ih =>
      rw [List.flatten_cons, List.length_append, h l List.mem_cons_self,
        ih fun k hk => h k (List.mem_cons_of_mem _ hk), List.length_cons, Nat.succ_mul,
        Nat.add_comm]

/-- The chunks of blocks that are put together are the blocks. -/
theorem chunks_flatten (hc : 0 < c) (h : ∀ l ∈ ls, l.length = c) : chunks c ls.flatten = ls := by
  refine List.ext_getElem? fun i => ?_
  rw [chunks, length_flatten_of h, Nat.mul_div_cancel _ hc, List.getElem?_map]
  by_cases hi : i < ls.length
  · obtain ⟨l, hl⟩ : ∃ l, ls[i]? = some l := ⟨_, List.getElem?_eq_getElem hi⟩
    have hchunk : chunk c i (ls.flatten ++ []) = l := chunk_flatten_append h hl
    rw [List.append_nil] at hchunk
    rw [List.getElem?_range hi, hl, Option.map_some, hchunk]
  · rw [List.getElem?_eq_none (by rw [List.length_range]; omega),
      List.getElem?_eq_none (by omega), Option.map_none]

/-- Chunks that follow each other make up a slice. -/
theorem chunks_take (m : Nat) :
    ((List.range m).map fun i => chunk c i xs).flatten = xs.take (m * c) := by
  induction m with
  | zero => rw [Nat.zero_mul, List.take_zero, List.range_zero, List.map_nil, List.flatten_nil]
  | succ m ih =>
      rw [List.range_succ, List.map_append, List.flatten_append, ih, List.map_singleton,
        List.flatten_singleton, Nat.succ_mul, List.take_add, chunk]

/-- Chunks that reach the end of a file make up the file. -/
theorem chunks_cover {m : Nat} (h : xs.length ≤ m * c) :
    ((List.range m).map fun i => chunk c i xs).flatten = xs := by
  rw [chunks_take, List.take_of_length_le h]

end Chunk

/-- A number as `w` bytes, the lowest first. -/
def toBytes : Nat → Nat → List UInt8
  | 0, _ => []
  | w + 1, x => UInt8.ofNat x :: toBytes w (x / 256)

/-- The number that bytes stand for. -/
def ofBytes : List UInt8 → Nat
  | [] => 0
  | b :: bs => b.toNat + 256 * ofBytes bs

theorem toBytes_length (w x : Nat) : (toBytes w x).length = w := by
  induction w generalizing x with
  | zero => rfl
  | succ w ih => rw [toBytes, List.length_cons, ih]

theorem ofBytes_toBytes {w x : Nat} (h : x < 256 ^ w) : ofBytes (toBytes w x) = x := by
  induction w generalizing x with
  | zero =>
      rw [Nat.pow_zero] at h
      rw [toBytes, ofBytes]
      omega
  | succ w ih =>
      have hdiv : x / 256 < 256 ^ w := by
        rw [Nat.pow_succ] at h
        exact Nat.div_lt_of_lt_mul (by omega)
      rw [toBytes, ofBytes, ih hdiv, UInt8.toNat_ofNat']
      omega

theorem ofBytes_lt (bs : List UInt8) : ofBytes bs < 256 ^ bs.length := by
  induction bs with
  | nil => exact Nat.one_pos
  | cons b bs ih =>
      have hb := b.toNat_lt
      rw [ofBytes, List.length_cons, Nat.pow_succ]
      omega

end Chunks
end Cubiboot
