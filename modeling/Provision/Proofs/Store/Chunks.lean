import Mathlib.Data.List.Nodup
import Provision.Store

/-!
# Stored log chunks

* `Store.putChunk_ok`: a chunk is stored for a run that is there, at a place that has none, and put
  behind all others.
* `Store.chunksOf_addChunk`: the chunks of a phase, after one was stored behind them.
-/

namespace Provision

/-- Where a chunk belongs: its run, phase and offset. -/
def Chunk.place (c : Chunk) : String × PhaseKind × Int :=
  (c.run, c.phase, c.offset)

namespace Store

/-- A chunk with the next number. -/
def numbered (s : Store) (chunk : Chunk) : StoredChunk :=
  ⟨(s.lastChunk + 1 : ℕ), chunk⟩

/-- The store with one more chunk. -/
def addChunk (s : Store) (chunk : Chunk) : Store :=
  { s with chunks := s.chunks ++ [s.numbered chunk], lastChunk := s.lastChunk + 1 }

/-- The chunks of a phase as they were handed in, by offset. -/
def logOf (s : Store) (run : String) (phase : PhaseKind) : List Chunk :=
  (s.chunksOf run phase).map (·.chunk)

variable {s s' : Store} {chunk : Chunk} {stored : StoredChunk} {run : String} {phase : PhaseKind}

/-- **What it takes to store a chunk**, and what comes of it. -/
theorem putChunk_ok (h : s.putChunk chunk = .ok (stored, s')) :
    stored = s.numbered chunk ∧ s' = s.addChunk chunk ∧ (∃ r ∈ s.runs, r.id = chunk.run) ∧
      ∀ c ∈ s.chunks, c.chunk.place ≠ chunk.place := by
  unfold putChunk at h
  split_ifs at h with hr hc
  cases h
  refine ⟨rfl, rfl, by simpa using hr, fun c hm he => hc ?_⟩
  obtain ⟨h₁, h₂, h₃⟩ : c.chunk.run = chunk.run ∧ c.chunk.phase = chunk.phase ∧
      c.chunk.offset = chunk.offset := by simpa [Chunk.place] using he
  exact List.any_eq_true.mpr ⟨c, hm, by simp [h₁, h₂, h₃]⟩

theorem mem_chunksOf {c : StoredChunk} : c ∈ s.chunksOf run phase ↔
    c ∈ s.chunks ∧ c.chunk.run = run ∧ c.chunk.phase = phase := by
  simp [chunksOf]

theorem chunksOf_perm : (s.chunksOf run phase).Perm
    (s.chunks.filter fun c => c.chunk.run == run && c.chunk.phase == phase) :=
  List.mergeSort_perm _ _

theorem chunksOf_pairwise_le (s : Store) (run : String) (phase : PhaseKind) :
    (s.chunksOf run phase).Pairwise fun a b => a.chunk.offset ≤ b.chunk.offset :=
  (List.pairwise_mergeSort (by simpa using fun a b c => Int.le_trans)
    (by simpa using fun a b => Int.le_total _ _) _).imp of_decide_eq_true

/-- **A chunk comes last** if it begins behind all others of its phase. -/
theorem chunksOf_addChunk (hp : (s.logOf chunk.run chunk.phase).Pairwise (·.offset < ·.offset))
    (hb : ∀ c ∈ s.logOf chunk.run chunk.phase, c.offset < chunk.offset) :
    (s.addChunk chunk).chunksOf chunk.run chunk.phase =
      s.chunksOf chunk.run chunk.phase ++ [s.numbered chunk] := by
  have hlt : (s.chunksOf chunk.run chunk.phase ++ [s.numbered chunk]).Pairwise
      fun a b => a.chunk.offset < b.chunk.offset := by
    rw [logOf, List.pairwise_map] at hp
    refine List.pairwise_append.mpr ⟨hp, List.pairwise_singleton _ _, ?_⟩
    intro a ha b hb'
    rw [List.mem_singleton.mp hb']
    exact hb a.chunk (List.mem_map_of_mem ha)
  have hn : ((s.chunksOf chunk.run chunk.phase ++ [s.numbered chunk]).map
      fun c => c.chunk.offset).Nodup :=
    List.pairwise_map.mpr (hlt.imp fun hab => Int.ne_of_lt hab)
  have hperm : ((s.addChunk chunk).chunksOf chunk.run chunk.phase).Perm
      (s.chunksOf chunk.run chunk.phase ++ [s.numbered chunk]) := by
    refine chunksOf_perm.trans ?_
    have hf : ((s.addChunk chunk).chunks.filter fun c =>
        c.chunk.run == chunk.run && c.chunk.phase == chunk.phase) =
        (s.chunks.filter fun c => c.chunk.run == chunk.run && c.chunk.phase == chunk.phase) ++
          [s.numbered chunk] := by
      simp [addChunk, numbered]
    exact hf ▸ chunksOf_perm.symm.append_right _
  refine hperm.eq_of_pairwise (fun a b ha hb hab hba => ?_) (chunksOf_pairwise_le _ _ _)
    (hlt.imp fun h => Int.le_of_lt h)
  exact List.inj_on_of_nodup_map hn (hperm.subset ha) hb (Int.le_antisymm hab hba)

theorem logOf_addChunk (chunk : Chunk)
    (hp : (s.logOf chunk.run chunk.phase).Pairwise (·.offset < ·.offset))
    (hb : ∀ c ∈ s.logOf chunk.run chunk.phase, c.offset < chunk.offset) :
    (s.addChunk chunk).logOf chunk.run chunk.phase =
      s.logOf chunk.run chunk.phase ++ [chunk] := by
  rw [logOf, chunksOf_addChunk hp hb]
  exact List.map_append

end Store

end Provision
