import Mathlib.Algebra.Group.Int.Defs
import Mathlib.Data.List.Basic
import Provision.Log.Basic

/-!
# Chunks that tile a stream

* `Log.Tiles`: chunks that hold something lie one behind the other, from one offset to another.
* `Log.Tiles.assemble_eq`: their output is what they hold, in this order and without the marks.
* `Log.Tiles.isComplete?_eq`: whether they are a whole stream is told by the first byte and the last.
-/

namespace Provision

open Provision.Text (Bytes inInt64)

theorem Text.inInt64_iff {i : Int} : inInt64 i = true ↔ -2 ^ 63 ≤ i ∧ i < 2 ^ 63 := by
  unfold inInt64
  rw [Bool.and_eq_true_iff, decide_eq_true_iff, decide_eq_true_iff]
  rfl

namespace Log

/-- Chunks that hold something, one behind the other, from one offset to another. -/
inductive Tiles : Int → List Chunk → Int → Prop
  | nil (start : Int) : Tiles start [] start
  | cons {c : Chunk} {rest : List Chunk} {start stop : Int} : c.offset = start → c.data ≠ [] →
      Tiles (start + c.data.length) rest stop → Tiles start (c :: rest) stop

/-- What chunks hold, marks included. -/
def content (chunks : List Chunk) : Bytes :=
  chunks.flatMap (·.data)

@[simp] theorem content_nil : content [] = [] := rfl

@[simp] theorem content_cons (c : Chunk) (chunks : List Chunk) :
    content (c :: chunks) = c.data ++ content chunks := List.flatMap_cons

@[simp] theorem content_concat (chunks : List Chunk) (c : Chunk) :
    content (chunks ++ [c]) = content chunks ++ c.data := by
  simp [content]

@[simp] theorem stripStart_cons (bytes : Bytes) : stripStart (startMark :: bytes) = bytes := by
  rw [stripStart, if_pos rfl]

@[simp] theorem stripEnd_concat (bytes : Bytes) : stripEnd (bytes ++ [endMark]) = bytes := by
  rw [stripEnd, if_pos List.getLast?_concat, List.dropLast_concat]

theorem stripEnd_eq_self_iff {bytes : Bytes} :
    stripEnd bytes = bytes ↔ bytes.getLast? ≠ some endMark := by
  unfold stripEnd
  split_ifs with h
  · refine iff_of_false (fun he => ?_) (not_not_intro h)
    obtain ⟨init, rfl⟩ := List.getLast?_eq_some_iff.mp h
    simp at he
  · exact iff_of_true rfl h

namespace Tiles

variable {start stop : Int} {chunks : List Chunk}

/-- **A chunk is put behind** the others. -/
theorem concat (h : Tiles start chunks stop) {c : Chunk} (hc : c.offset = stop)
    (hd : c.data ≠ []) : Tiles start (chunks ++ [c]) (stop + c.data.length) := by
  induction h with
  | nil => exact .cons hc hd (.nil _)
  | cons ho hn _ ih => exact .cons ho hn (ih hc)

theorem data_ne_nil (h : Tiles start chunks stop) : ∀ c ∈ chunks, c.data ≠ [] := by
  induction h with
  | nil => exact fun _ hc => by cases hc
  | cons _ hn _ ih => exact List.forall_mem_cons.mpr ⟨hn, ih⟩

theorem bounds (h : Tiles start chunks stop) : start ≤ stop ∧
    ∀ c ∈ chunks, start ≤ c.offset ∧ c.offset < stop := by
  induction h with
  | nil => exact ⟨Int.le_refl _, fun _ hc => by cases hc⟩
  | @cons c rest start stop ho hn _ ih =>
    have hpos : 0 < c.data.length := List.length_pos_iff.mpr hn
    obtain ⟨hle, hrest⟩ := ih
    refine ⟨by omega, List.forall_mem_cons.mpr ⟨by omega, fun x hx => ?_⟩⟩
    have := hrest x hx
    omega

/-- **Offsets go up.** -/
theorem pairwise (h : Tiles start chunks stop) : chunks.Pairwise fun a b => a.offset < b.offset := by
  induction h with
  | nil => exact List.Pairwise.nil
  | @cons c rest start stop ho hn hr ih =>
    have hpos : 0 < c.data.length := List.length_pos_iff.mpr hn
    refine List.pairwise_cons.mpr ⟨fun x hx => ?_, ih⟩
    have := (hr.bounds.2 x hx).1
    omega

theorem inOrder_eq (h : Tiles start chunks stop) : inOrder chunks = chunks :=
  List.mergeSort_of_pairwise (h.pairwise.imp fun hab => decide_eq_true (Int.le_of_lt hab))

/-- **What tiles hold is put out in this order.** -/
theorem assemble_eq (h : Tiles start chunks stop) :
    assemble chunks = stripEnd (stripStart (content chunks)) := by
  rw [assemble, h.inOrder_eq, content]

/-! ## Whole streams -/

theorem head?_content (h : Tiles start chunks stop) :
    (content chunks).head? = chunks.head?.bind (·.data.head?) := by
  cases h with
  | nil => rfl
  | cons _ hn _ => rw [content_cons, List.head?_append_of_ne_nil _ hn, List.head?_cons, Option.bind_some]

theorem getLast?_content (h : Tiles start chunks stop) :
    (content chunks).getLast? = chunks.getLast?.bind (·.data.getLast?) := by
  rcases List.eq_nil_or_concat' chunks with rfl | ⟨init, c, rfl⟩
  · rfl
  · have hn := h.data_ne_nil c (by simp)
    rw [content_concat, List.getLast?_append_of_ne_nil _ hn, List.getLast?_concat, Option.bind_some]

/-- **Tiles have no gap.** It goes unnoticed only where the offsets leave the range of 64 bits. -/
theorem isGapFree?_cases (h : Tiles start chunks stop) (hs : -2 ^ 63 ≤ start) :
    isGapFree? chunks = some true ∨ isGapFree? chunks = none ∧ inInt64 stop = false := by
  induction h with
  | nil => exact .inl rfl
  | @cons c rest start stop ho hn hr ih =>
    cases hr with
    | nil => exact .inl rfl
    | @cons d tail _ _ hd hdn htail =>
      have hle := htail.bounds.1
      have ih := ih (by omega)
      unfold isGapFree? Chunk.nextOffset?
      rw [ho, ← hd]
      by_cases hi : inInt64 d.offset = true
      · simpa [hi] using ih
      · refine .inr ⟨by simp [hi], Bool.eq_false_iff.mpr fun hstop => hi ?_⟩
        rw [Text.inInt64_iff] at hstop ⊢
        omega

/-- **Whether tiles are a whole stream** is told by the first byte and the last. -/
theorem isComplete?_eq (h : Tiles 0 chunks stop) :
    isComplete? chunks =
      if (content chunks).head? = some startMark ∧ (content chunks).getLast? = some endMark then
        isGapFree? chunks
      else some false := by
  unfold isComplete?
  rw [h.inOrder_eq, h.head?_content, h.getLast?_content]
  cases h with
  | nil => rfl
  | @cons c rest _ _ ho _ _ =>
    obtain ⟨last, hlast⟩ : ∃ last, (c :: rest).getLast? = some last :=
      ⟨_, List.getLast?_eq_some_getLast (List.cons_ne_nil c rest)⟩
    simp only [List.head?_cons, hlast, ho, Option.bind_some, Chunk.isStart, Chunk.isEnd, beq_iff_eq,
      true_and]

end Tiles

end Log

end Provision
