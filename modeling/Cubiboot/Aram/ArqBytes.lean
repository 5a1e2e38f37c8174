import Cubiboot.Aram.ArqRuns
import Cubiboot.Foundations.CopyRange

/-!
# The bytes of a request

What the DMA engine does to main memory and to ARAM.  The chunks of a request of low
priority, transferred one after the other, leave both memories as one transfer of the whole
request would (`pieces_copy`): a transfer writes one memory and reads the other, so that a
chunk that has been moved is not read again.

Results: `part_append`, that two parts of a request which follow each other transfer
what one part of both lengths does; `chunks_run`, the memories after the first chunks;
`pieces_copy`, the memories after all of them, for a request whose two ranges end within
the address space of 32 bits.
-/

namespace Cubiboot
namespace Aram

open Words CopyRange

universe u v w

/-- Main memory and ARAM. -/
structure Memories (β : Type w) where
  main : Nat → β
  aram : Nat → β

variable {ι : Type u} {κ : Type v} {β : Type w}

/-- A transfer. -/
def Dma.run (d : Dma) (m : Memories β) : Memories β :=
  if d.type = arqTypeMramToAram then
    { m with
      aram := copyRange m.aram d.aramAddr d.length fun i => m.main (d.mainmemAddr + i) }
  else
    { m with
      main := copyRange m.main d.mainmemAddr d.length fun i => m.aram (d.aramAddr + i) }

/-- Transfers one after the other. -/
def runAll (ds : List Dma) (m : Memories β) : Memories β :=
  ds.foldl (fun m d => d.run m) m

variable {j : ArqJob ι κ}

/-- A part of a job that does not wrap. -/
theorem part_fits {sent length : Nat}
    (hs : j.source + j.length ≤ 0x100000000) (hd : j.dest + j.length ≤ 0x100000000)
    (hsent : sent < j.length) :
    j.part sent length =
      if j.type = arqTypeMramToAram then
        ⟨j.type, j.source + sent, j.dest + sent, length⟩
      else
        ⟨j.type, j.dest + sent, j.source + sent, length⟩ := by
  rw [ArqJob.part, word_of_lt (by omega), word_of_lt (by omega)]

/-- Two parts that follow each other. -/
theorem part_append {sent length : Nat} (more : Nat) (m : Memories β)
    (hs : j.source + j.length ≤ 0x100000000) (hd : j.dest + j.length ≤ 0x100000000)
    (hlt : sent + length < j.length) :
    (j.part (sent + length) more).run ((j.part sent length).run m) =
      (j.part sent (length + more)).run m := by
  have hsent : sent < j.length := by omega
  rw [part_fits hs hd hlt, part_fits hs hd hsent, part_fits hs hd hsent]
  by_cases htype : j.type = arqTypeMramToAram
  · simp only [Dma.run, if_pos htype]
    congr 1
    have happ := @copyRange_append β m.aram (fun i => m.main (j.source + sent + i))
      (j.dest + sent) length more
    simp only [Nat.add_assoc] at happ ⊢
    exact happ
  · simp only [Dma.run, if_neg htype]
    congr 1
    have happ := @copyRange_append β m.main (fun i => m.aram (j.source + sent + i))
      (j.dest + sent) length more
    simp only [Nat.add_assoc] at happ ⊢
    exact happ

theorem part_zero (m : Memories β) : (j.part 0 0).run m = m := by
  rw [ArqJob.part]
  by_cases htype : j.type = arqTypeMramToAram
  · simp only [Dma.run, if_pos htype, copyRange_zero]
  · simp only [Dma.run, if_neg htype, copyRange_zero]

/-- Chunks before the last one are one transfer of as many bytes. -/
theorem chunks_run {n : Nat} (m : Memories β)
    (hs : j.source + j.length ≤ 0x100000000) (hd : j.dest + j.length ≤ 0x100000000)
    (hlt : n * arqChunkSizeDefault < j.length) :
    runAll (j.chunks n) m = (j.part 0 (n * arqChunkSizeDefault)).run m := by
  induction n with
  | zero =>
      rw [Nat.zero_mul, part_zero]
      rfl
  | succ n ih =>
      have hprev : n * arqChunkSizeDefault + arqChunkSizeDefault < j.length := by
        rw [← Nat.succ_mul]
        exact hlt
      have hmore : ¬ j.Last (n * arqChunkSizeDefault) := by
        rw [ArqJob.Last]
        omega
      have hbefore : 0 + n * arqChunkSizeDefault < j.length := by omega
      rw [chunks_succ, runAll, List.foldl_append, List.foldl_cons, List.foldl_nil, ← runAll,
        ih (by omega), ArqJob.chunk, if_neg hmore, Nat.succ_mul]
      have happ := part_append arqChunkSizeDefault m hs hd hbefore
      rw [Nat.zero_add] at happ
      exact happ

/-- The chunks of a request move what one transfer of all of it would. -/
theorem pieces_copy (j : ArqJob ι κ) (m : Memories β)
    (hs : j.source + j.length ≤ 0x100000000) (hd : j.dest + j.length ≤ 0x100000000) :
    runAll j.pieces m = j.whole.run m := by
  rw [ArqJob.pieces, ArqJob.chunkCount, chunks_succ, runAll, List.foldl_append, List.foldl_cons,
    List.foldl_nil, ← runAll]
  obtain ⟨n, hn⟩ : ∃ n, n = (j.length - 1) / arqChunkSizeDefault := ⟨_, rfl⟩
  rw [← hn]
  have hlast : j.Last (n * arqChunkSizeDefault) := by
    simp only [ArqJob.Last, arqChunkSizeDefault] at hn ⊢
    omega
  rw [ArqJob.chunk, if_pos hlast]
  by_cases hzero : j.length = 0
  · have hnone : n = 0 := by
      rw [hn, hzero]
      decide
    rw [hnone, hzero, ArqJob.whole, hzero]
    rfl
  · have hlt : n * arqChunkSizeDefault < j.length := by
      simp only [arqChunkSizeDefault] at hn ⊢
      omega
    rw [chunks_run m hs hd hlt]
    have happ := part_append (j.length - n * arqChunkSizeDefault) m hs hd
      (show 0 + n * arqChunkSizeDefault < j.length by omega)
    rw [Nat.zero_add] at happ
    rw [happ, ArqJob.whole, Nat.add_sub_cancel' (Nat.le_of_lt hlt)]

/-- A banner, which takes two chunks. -/
theorem pieces_copy_banner :
    runAll samplePost.job.pieces ⟨id, fun _ => 0⟩ = samplePost.job.whole.run ⟨id, fun _ => 0⟩ :=
  pieces_copy samplePost.job ⟨id, fun _ => 0⟩ (by decide) (by decide)

end Aram
end Cubiboot
