import Mathlib.Data.List.Chain
import Mathlib.Tactic.SplitIfs
import Provision.Text.Blank

/-!
# The words of a text

A word is a run of characters that are not blank. A text is put on one line by writing its words with
single spaces between them.

* `Worded`: how a text falls into words, and `worded_iff`: into no others than `words`.
* `words_unwords`: words that are put on a line come back.
* `tidy_unwords`: what is on such a line.
-/

namespace Provision.Text

variable {c : Char} {p : Char → Bool} {s w : List Char} {ws : List (List Char)}

/-- Characters that make up a word. -/
structure IsWord (w : List Char) : Prop where
  ne_nil : w ≠ []
  solid : ∀ c ∈ w, isBlank c = false

/-- A text with its words, each as long as can be. -/
inductive Worded : List Char → List (List Char) → Prop
  | nil : Worded [] []
  | blank {c : Char} {s : List Char} {ws : List (List Char)} : isBlank c = true → Worded s ws →
      Worded (c :: s) ws
  | word {w s : List Char} {ws : List (List Char)} : IsWord w → (∀ c ∈ s.head?, isBlank c = true) →
      Worded s ws → Worded (w ++ s) (w :: ws)

/-- A text on one line: its blanks are spaces, each of them between two other characters. -/
structure IsTidy (s : List Char) : Prop where
  blanks : ∀ c ∈ s, isBlank c = true → c = ' '
  head : ∀ c ∈ s.head?, isBlank c = false
  last : ∀ c ∈ s.getLast?, isBlank c = false
  apart : s.IsChain fun a b => ¬ (isBlank a = true ∧ isBlank b = true)

/-! ## Falling into words -/

theorem pieces_eq_splitOnP (p : Char → Bool) (s : List Char) : pieces p s = s.splitOnP p := by
  induction s with
  | nil => rfl
  | cons c s ih =>
    rw [pieces, ih, List.splitOnP_cons_eq_if_modifyHead]
    split_ifs with hc
    · rfl
    · cases hs : s.splitOnP p with
      | nil => exact absurd hs (List.splitOnP_ne_nil p s)
      | cons piece more => rfl

theorem words_blank (hc : isBlank c = true) (s : List Char) : words (c :: s) = words s := by
  simp [words, pieces, hc]

theorem words_word (hw : IsWord w) (hs : ∀ c ∈ s.head?, isBlank c = true) :
    words (w ++ s) = w :: words s := by
  cases s with
  | nil =>
    rw [words, pieces_eq_splitOnP, List.append_nil, List.splitOnP_eq_singleton hw.solid]
    simp [words, pieces, hw.ne_nil]
  | cons c s =>
    have hc : isBlank c = true := hs c rfl
    rw [words, pieces_eq_splitOnP, List.splitOnP_append_cons_of_forall_mem hw.solid c hc,
      words_blank hc, words, pieces_eq_splitOnP, List.filter_cons_of_pos (by simp [hw.ne_nil])]

theorem Worded.words_eq (h : Worded s ws) : words s = ws := by
  induction h with
  | nil => rfl
  | blank hc _ ih => rw [words_blank hc, ih]
  | word hw hs _ ih => rw [words_word hw hs, ih]

theorem exists_worded_cons (c : Char) (h : Worded s ws) : ∃ ws, Worded (c :: s) ws := by
  by_cases hc : isBlank c = true
  · exact ⟨ws, .blank hc h⟩
  have hc : isBlank c = false := Bool.eq_false_iff.mpr hc
  have halone : IsWord [c] := ⟨List.cons_ne_nil c [], List.forall_mem_singleton.mpr hc⟩
  cases h with
  | nil => exact ⟨_, .word halone (by simp) .nil⟩
  | @blank d s _ hd h => exact ⟨_, .word halone (by simpa using hd) (.blank hd h)⟩
  | @word w s ws hw hs h =>
    have hlonger : IsWord (c :: w) :=
      ⟨List.cons_ne_nil c w, List.forall_mem_cons.mpr ⟨hc, hw.solid⟩⟩
    exact ⟨_, .word hlonger hs h⟩

theorem exists_worded (s : List Char) : ∃ ws, Worded s ws := by
  induction s with
  | nil => exact ⟨[], .nil⟩
  | cons c s ih =>
    obtain ⟨ws, h⟩ := ih
    exact exists_worded_cons c h

/-- **Every text falls into its words**, and into no others. -/
theorem worded_iff : Worded s ws ↔ words s = ws := by
  refine ⟨Worded.words_eq, ?_⟩
  rintro rfl
  obtain ⟨ws, h⟩ := exists_worded s
  exact h.words_eq.symm ▸ h

theorem Worded.isWord (h : Worded s ws) : ∀ w ∈ ws, IsWord w := by
  induction h with
  | nil => simp
  | blank _ _ ih => exact ih
  | word hw _ _ ih => exact List.forall_mem_cons.mpr ⟨hw, ih⟩

theorem Worded.subset (h : Worded s ws) : ∀ w ∈ ws, w ⊆ s := by
  induction h with
  | nil => simp
  | blank _ _ ih => exact fun w hw => List.Subset.trans (ih w hw) (List.subset_cons_self _ _)
  | word _ _ _ ih =>
    exact List.forall_mem_cons.mpr ⟨List.subset_append_left _ _,
      fun w hw => List.Subset.trans (ih w hw) (List.subset_append_right _ _)⟩

/-! ## On one line -/

theorem unwords_cons_cons (w v : List Char) (ws : List (List Char)) :
    unwords (w :: v :: ws) = w ++ ' ' :: unwords (v :: ws) := by
  simp [unwords, List.intercalate]

theorem isBlank_space : isBlank ' ' = true := by
  decide

theorem worded_unwords (h : ∀ w ∈ ws, IsWord w) : Worded (unwords ws) ws := by
  induction ws with
  | nil => exact .nil
  | cons w ws ih =>
    obtain ⟨hw, hws⟩ := List.forall_mem_cons.mp h
    cases ws with
    | nil =>
      rw [show unwords [w] = w ++ [] by simp [unwords, List.intercalate]]
      exact .word hw (by simp) .nil
    | cons v ws =>
      rw [unwords_cons_cons]
      exact .word hw (by simp [isBlank_space]) (.blank isBlank_space (ih hws))

/-- **Words that are put on a line** come back. -/
theorem words_unwords (h : ∀ w ∈ ws, IsWord w) : words (unwords ws) = ws :=
  (worded_unwords h).words_eq

theorem eq_space_or_of_mem_unwords (h : c ∈ unwords ws) : c = ' ' ∨ ∃ w ∈ ws, c ∈ w := by
  induction ws with
  | nil => cases h
  | cons w ws ih =>
    cases ws with
    | nil => exact .inr ⟨w, List.mem_cons_self, by simpa [unwords, List.intercalate] using h⟩
    | cons v ws =>
      rw [unwords_cons_cons] at h
      rcases List.mem_append.mp h with h | h
      · exact .inr ⟨w, List.mem_cons_self, h⟩
      rcases List.mem_cons.mp h with h | h
      · exact .inl h
      · exact (ih h).imp_right fun ⟨u, hu, hc⟩ => ⟨u, List.mem_cons_of_mem w hu, hc⟩

theorem isTidy_nil : IsTidy [] where
  blanks _ h := by cases h
  head _ h := by cases h
  last _ h := by cases h
  apart := .nil

theorem IsWord.isTidy (h : IsWord w) : IsTidy w where
  blanks c hc hb := absurd (h.solid c hc) (by simp [hb])
  head c hc := h.solid c (List.mem_of_mem_head? hc)
  last c hc := h.solid c (List.mem_of_mem_getLast? hc)
  apart := (List.pairwise_of_forall_mem_list fun a ha b _ hab =>
    absurd (h.solid a ha) (by simp [hab.1])).isChain

theorem IsTidy.cons (hw : IsWord w) (hs : IsTidy s) (hne : s ≠ []) : IsTidy (w ++ ' ' :: s) where
  blanks c hc hb := by
    rcases List.mem_append.mp hc with hc | hc
    · exact hw.isTidy.blanks c hc hb
    · exact (List.mem_cons.mp hc).elim id fun hc => hs.blanks c hc hb
  head := by
    rw [List.head?_append_of_ne_nil _ hw.ne_nil]
    exact hw.isTidy.head
  last := by
    rw [List.getLast?_append_of_ne_nil _ (List.cons_ne_nil _ _), List.getLast?_cons_of_ne_nil hne]
    exact hs.last
  apart := by
    refine List.isChain_append.mpr ⟨hw.isTidy.apart, ?_, fun a ha b _ hab => ?_⟩
    · refine List.isChain_cons.mpr ⟨fun b hb hab => ?_, hs.apart⟩
      exact absurd (hs.head b hb) (by simp [hab.2])
    · exact absurd (hw.isTidy.last a ha) (by simp [hab.1])

/-- **What is on a line** of words. -/
theorem isTidy_unwords (h : ∀ w ∈ ws, IsWord w) : IsTidy (unwords ws) := by
  induction ws with
  | nil => exact isTidy_nil
  | cons w ws ih =>
    obtain ⟨hw, hws⟩ := List.forall_mem_cons.mp h
    cases ws with
    | nil => simpa [unwords, List.intercalate] using hw.isTidy
    | cons v ws =>
      rw [unwords_cons_cons]
      refine (ih hws).cons hw fun hnil => ?_
      cases (worded_unwords hws).words_eq.symm.trans (congrArg words hnil)

end Provision.Text
