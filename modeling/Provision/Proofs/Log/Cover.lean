import Mathlib.Algebra.Group.Nat.Defs
import Mathlib.Data.List.Nodup
import Provision.Proofs.Log.Tiles
import Provision.Proofs.Store.Rooted

/-!
# Sets of chunks

The chunks of a phase are a set: no two of them start at one offset, and it does not matter in which
order they are handed in.

* `Log.inOrder_congr`: such chunks have one order.
* `Log.Covers`: the chunks are pieces of a stream, one behind the other from its first byte to its last.
* `Log.isComplete?_ne_none`: no offset that is compared leaves the range of 64 bits, wherever the
  chunks lie.
* `Log.complete_iff_covers`: a set of chunks is complete exactly when it covers a stream within marks,
  and then it reads as that stream without them.
-/

namespace Provision

open Provision.Text (Bytes inInt64)

namespace Log

/-- The chunks, in some order, are consecutive pieces of the stream `s`: they hold something, lie one
behind the other from offset 0, and hold the bytes of `s`. -/
def Covers (s : Bytes) (chunks : List Chunk) : Prop :=
  ∃ ordered : List Chunk, ordered.Perm chunks ∧ Tiles 0 ordered s.length ∧ content ordered = s

variable {chunks others : List Chunk} {start stop : Int} {s : Bytes}

/-! ## One order -/

theorem inOrder_perm (chunks : List Chunk) : (inOrder chunks).Perm chunks :=
  List.mergeSort_perm _ _

theorem inOrder_pairwise_le (chunks : List Chunk) :
    (inOrder chunks).Pairwise fun a b => a.offset ≤ b.offset :=
  (List.pairwise_mergeSort (by simpa using fun a b c => Int.le_trans)
    (by simpa using fun a b => Int.le_total _ _) _).imp of_decide_eq_true

/-- **Chunks with different offsets have one order.** -/
theorem inOrder_congr (hn : (chunks.map (·.offset)).Nodup) (hp : others.Perm chunks) :
    inOrder others = inOrder chunks := by
  have hperm : (inOrder others).Perm (inOrder chunks) :=
    ((inOrder_perm others).trans hp).trans (inOrder_perm chunks).symm
  refine hperm.eq_of_pairwise (fun a b ha hb hab hba => ?_) (inOrder_pairwise_le others)
    (inOrder_pairwise_le chunks)
  have ha : a ∈ chunks := hp.subset ((inOrder_perm others).subset ha)
  have hb : b ∈ chunks := (inOrder_perm chunks).subset hb
  exact List.inj_on_of_nodup_map hn ha hb (Int.le_antisymm hab hba)

theorem inOrder_pairwise_lt (hn : (chunks.map (·.offset)).Nodup) :
    (inOrder chunks).Pairwise fun a b => a.offset < b.offset := by
  have hne : (inOrder chunks).Pairwise fun a b => a.offset ≠ b.offset :=
    List.pairwise_map.mp (((inOrder_perm chunks).map _).nodup_iff.mpr hn)
  exact (inOrder_pairwise_le chunks).imp₂ (fun _ _ hle hne => Int.lt_iff_le_and_ne.mpr ⟨hle, hne⟩) hne

/-! ## No gap -/

theorem isGapFree?_cons_cons (a b : Chunk) (rest : List Chunk) :
    isGapFree? (a :: b :: rest) =
      if inInt64 (a.offset + a.data.length) then
        if a.offset + a.data.length = b.offset then isGapFree? (b :: rest) else some false
      else none := by
  rw [isGapFree?, Chunk.nextOffset?]
  by_cases hi : inInt64 (a.offset + a.data.length) = true
  · rw [if_pos hi, if_pos hi]
  · rw [if_neg hi, if_neg hi]

/-- **Chunks without a gap are tiles.** None but the last can be empty, since offsets go up. -/
theorem tiles_of_isGapFree? (hp : chunks.Pairwise fun a b => a.offset < b.offset)
    (hg : isGapFree? chunks = some true) (hs : ∀ c ∈ chunks.head?, c.offset = start)
    (hl : ∀ c ∈ chunks.getLast?, c.data ≠ []) :
    Tiles start chunks (start + (content chunks).length) := by
  induction chunks generalizing start with
  | nil => simpa using Tiles.nil start
  | cons a rest ih =>
    have ha : a.offset = start := hs a rfl
    obtain ⟨hlt, hp⟩ := List.pairwise_cons.mp hp
    rw [content_cons, List.length_append, Int.natCast_add, ← Int.add_assoc]
    cases rest with
    | nil => exact .cons ha (hl a rfl) (ih hp rfl nofun nofun)
    | cons b rest =>
      rw [isGapFree?_cons_cons] at hg
      split_ifs at hg with hi hnext
      · have hb : b.offset = start + a.data.length := by rw [← hnext, ha]
        have hd : a.data ≠ [] := by
          intro hd
          have hab := hlt b List.mem_cons_self
          rw [hb, hd, ha] at hab
          simp at hab
        exact .cons ha hd (ih hp hg (fun c hc => by cases hc; exact hb) hl)
      · cases hg

/-- **No comparison leaves the range of 64 bits**: what is compared are offsets within the stream that
begins with the first chunk, up to the first gap. -/
theorem isGapFree?_ne_none (hs : ∀ c ∈ chunks.head?, c.offset = start) (h₀ : -2 ^ 63 ≤ start)
    (hlen : start + (content chunks).length < 2 ^ 63) : isGapFree? chunks ≠ none := by
  induction chunks generalizing start with
  | nil => exact Option.some_ne_none _
  | cons a rest ih =>
    cases rest with
    | nil => exact Option.some_ne_none _
    | cons b rest =>
      have ha : a.offset = start := hs a rfl
      rw [content_cons, List.length_append] at hlen
      have hi : inInt64 (start + a.data.length) = true :=
        Text.inInt64_iff.mpr ⟨by omega, by omega⟩
      rw [isGapFree?_cons_cons, ha, if_pos hi]
      split_ifs with hb
      · refine ih (fun c hc => ?_) (by omega : -2 ^ 63 ≤ start + (a.data.length : Int)) (by omega)
        cases hc
        exact hb.symm
      · exact Option.some_ne_none _

theorem length_content_inOrder (chunks : List Chunk) :
    (content (inOrder chunks)).length = (content chunks).length :=
  ((inOrder_perm chunks).flatMap_right _).length_eq

/-- **Whether chunks are complete can always be told.** -/
theorem isComplete?_ne_none (hlen : (content chunks).length < 2 ^ 63) :
    isComplete? chunks ≠ none := by
  have hlen : (content (inOrder chunks)).length < 2 ^ 63 := by rwa [length_content_inOrder]
  unfold isComplete?
  dsimp only
  split
  case h_1 first last hf hl =>
    split_ifs with h
    · have hs : ∀ c ∈ (inOrder chunks).head?, c.offset = 0 := by
        intro c hc
        rw [hf] at hc
        cases hc
        exact h.1
      exact isGapFree?_ne_none hs (by decide) (by omega)
    · exact Option.some_ne_none _
  case h_2 => exact Option.some_ne_none _

/-! ## Streams within marks -/

theorem assemble_congr (hn : (chunks.map (·.offset)).Nodup) (hp : others.Perm chunks) :
    assemble others = assemble chunks := by
  rw [assemble, inOrder_congr hn hp, assemble]

theorem isComplete?_congr (hn : (chunks.map (·.offset)).Nodup) (hp : others.Perm chunks) :
    isComplete? others = isComplete? chunks := by
  rw [isComplete?, inOrder_congr hn hp, isComplete?]

theorem stripEnd_stripStart (hf : s.head? = some startMark) (hl : s.getLast? = some endMark) :
    stripEnd (stripStart s) = s.tail.dropLast := by
  obtain ⟨rest, rfl⟩ := List.head?_eq_some_iff.mp hf
  have hne : rest ≠ [] := by
    rintro rfl
    simp [startMark, endMark] at hl
  rw [List.getLast?_cons_of_ne_nil hne] at hl
  rw [stripStart_cons, stripEnd, if_pos hl, List.tail_cons]

theorem assemble_of_covers (hn : (chunks.map (·.offset)).Nodup) (h : Covers s chunks) :
    assemble chunks = stripEnd (stripStart s) := by
  obtain ⟨ordered, hp, ht, rfl⟩ := h
  rw [← assemble_congr hn hp, ht.assemble_eq]

theorem isComplete?_of_covers (hn : (chunks.map (·.offset)).Nodup)
    (hlen : (content chunks).length < 2 ^ 63) (hf : s.head? = some startMark)
    (hl : s.getLast? = some endMark) (h : Covers s chunks) : isComplete? chunks = some true := by
  obtain ⟨ordered, hp, ht, rfl⟩ := h
  have hlen : (content ordered).length < 2 ^ 63 := by
    rwa [content, (hp.flatMap_right _).length_eq]
  have hi : inInt64 (content ordered).length = true := Text.inInt64_iff.mpr ⟨by omega, by omega⟩
  rw [← isComplete?_congr hn hp, ht.isComplete?_eq, if_pos ⟨hf, hl⟩]
  refine (ht.isGapFree?_cases (by decide)).resolve_right fun hgap => ?_
  rw [hi] at hgap
  cases hgap.2

/-- **What is found complete covers a stream** from a start mark to an end mark. -/
theorem covers_of_isComplete? (hn : (chunks.map (·.offset)).Nodup)
    (h : isComplete? chunks = some true) :
    ∃ s, s.head? = some startMark ∧ s.getLast? = some endMark ∧ Covers s chunks := by
  unfold isComplete? at h
  dsimp only at h
  split at h
  case h_1 first last hf hl =>
    obtain ⟨ho, hstart, hend⟩ : first.offset = 0 ∧ first.isStart = true ∧ last.isEnd = true := by
      by_contra hc
      rw [if_neg hc] at h
      cases h
    rw [if_pos ⟨ho, hstart, hend⟩] at h
    have hstart : first.data.head? = some startMark := by simpa [Chunk.isStart] using hstart
    have hend : last.data.getLast? = some endMark := by simpa [Chunk.isEnd] using hend
    have ht : Tiles 0 (inOrder chunks) (0 + (content (inOrder chunks)).length) := by
      refine tiles_of_isGapFree? (inOrder_pairwise_lt hn) h (fun c hc => ?_) fun c hc => ?_
      · rw [hf] at hc
        cases hc
        exact ho
      · rw [hl] at hc
        cases hc
        intro hd
        simp [hd] at hend
    rw [Int.zero_add] at ht
    refine ⟨content (inOrder chunks), ?_, ?_, inOrder chunks, inOrder_perm chunks, ht, rfl⟩
    · rw [ht.head?_content, hf, Option.bind_some, hstart]
    · rw [ht.getLast?_content, hl, Option.bind_some, hend]
  case h_2 => cases h

/-- **A set of chunks is complete exactly when it covers a stream** that begins with the start mark
and ends with the end mark, and it reads as that stream without these two. The order in which the
chunks come makes no difference, and wherever they lie, completeness can be told. -/
theorem complete_iff_covers (hn : (chunks.map (·.offset)).Nodup)
    (hlen : (content chunks).length < 2 ^ 63) :
    (∀ others : List Chunk, others.Perm chunks →
        assemble others = assemble chunks ∧ isComplete? others = isComplete? chunks) ∧
      (isComplete? chunks = some true ↔
        ∃ s, s.head? = some startMark ∧ s.getLast? = some endMark ∧ Covers s chunks) ∧
      (∀ s, s.head? = some startMark → s.getLast? = some endMark → Covers s chunks →
        assemble chunks = s.tail.dropLast) ∧
      isComplete? chunks ≠ none := by
  refine ⟨fun others hp => ⟨assemble_congr hn hp, isComplete?_congr hn hp⟩, ⟨?_, ?_⟩, ?_,
    isComplete?_ne_none hlen⟩
  · exact covers_of_isComplete? hn
  · rintro ⟨s, hf, hl, h⟩
    exact isComplete?_of_covers hn hlen hf hl h
  · intro s hf hl h
    rw [assemble_of_covers hn h, stripEnd_stripStart hf hl]

/-- Two pieces of a stream, the later one first, and two marks that are as far apart as they can be. -/
theorem complete_iff_covers_pieces :
    isComplete? [⟨"run-1", .plan, 3, [105, endMark]⟩, ⟨"run-1", .plan, 0, [startMark, 104, endMark]⟩] =
        some true ∧
      assemble [⟨"run-1", .plan, 3, [105, endMark]⟩, ⟨"run-1", .plan, 0, [startMark, 104, endMark]⟩] =
        [104, endMark, 105] ∧
      isComplete? [⟨"run-1", .plan, 2 ^ 63 - 1, [endMark]⟩, ⟨"run-1", .plan, 0, [startMark]⟩] ≠
        none := by
  have hcovers : Covers [startMark, 104, endMark, 105, endMark]
      [⟨"run-1", .plan, 3, [105, endMark]⟩, ⟨"run-1", .plan, 0, [startMark, 104, endMark]⟩] := by
    refine ⟨_, List.Perm.swap _ _ _, ?_, rfl⟩
    exact .cons rfl (List.cons_ne_nil _ _) (.cons rfl (List.cons_ne_nil _ _) (.nil _))
  have hpieces : ([⟨"run-1", .plan, 3, [105, endMark]⟩,
      ⟨"run-1", .plan, 0, [startMark, 104, endMark]⟩].map Chunk.offset).Nodup := by decide
  have hmarks : ([⟨"run-1", .plan, 2 ^ 63 - 1, [endMark]⟩,
      ⟨"run-1", .plan, 0, [startMark]⟩].map Chunk.offset).Nodup := by decide
  obtain ⟨-, hiff, hread, -⟩ := complete_iff_covers hpieces (by decide)
  obtain ⟨-, -, -, hfar⟩ := complete_iff_covers hmarks (by decide)
  exact ⟨hiff.mpr ⟨_, rfl, rfl, hcovers⟩, hread _ rfl rfl hcovers, hfar⟩

end Log

namespace Store

/-- **The chunks of a stored log are such a set.** -/
theorem Logged.nodup_offsets {s : Store} (h : s.Logged) (run : String) (phase : PhaseKind) :
    ((s.logOf run phase).map (·.offset)).Nodup := by
  have hplaces : ((s.chunksOf run phase).map fun c => c.chunk.place).Nodup :=
    (chunksOf_perm.map _).nodup_iff.mpr (h.places.sublist (List.filter_sublist.map _))
  have hfix : ((s.chunksOf run phase).map fun c => c.chunk.place) =
      ((s.logOf run phase).map (·.offset)).map fun o => (run, phase, o) := by
    rw [logOf, List.map_map, List.map_map]
    refine List.map_congr_left fun c hc => ?_
    obtain ⟨-, hr, hp⟩ := mem_chunksOf.mp hc
    simp [Chunk.place, hr, hp]
  exact List.Nodup.of_map _ (hfix ▸ hplaces)

end Store

end Provision
