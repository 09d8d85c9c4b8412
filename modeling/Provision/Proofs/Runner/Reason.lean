import Provision.Proofs.Text.Words
import Provision.Runner.Engine

/-!
# The reason that an engine gives

What an engine says about its failure is put on one line: its words, in ASCII, without what an escape
character begins.

* `Engine.dropEscapes_append`, `Engine.dropEscapes_sequence`: what is left of a text, and what goes.
* `Engine.cleanStderr_eq_self`: a line of that kind is left as it is.
* **`Engine.cleanStderr_clean`**: what comes out, and from what.
-/

namespace Provision.Engine

open Provision.Text (isBlank words unwords Worded worded_iff words_unwords IsTidy isTidy_unwords
  eq_space_or_of_mem_unwords IsWord)

variable {c letter : Char} {s body : List Char}

/-! ## Escapes -/

theorem dropEscapes_cons (h : c ≠ '\x1b') (s : List Char) :
    dropEscapes (c :: s) = c :: dropEscapes s :=
  dropEscapes.eq_4 c s (fun _ hc _ => h hc) h

theorem dropEscapes_append (h : '\x1b' ∉ s) (rest : List Char) :
    dropEscapes (s ++ rest) = s ++ dropEscapes rest := by
  induction s with
  | nil => rfl
  | cons c s ih =>
    obtain ⟨hc, hs⟩ := List.ne_and_not_mem_of_not_mem_cons h
    rw [List.cons_append, dropEscapes_cons hc.symm, ih hs, List.cons_append]

theorem dropEscapes_of_notMem (h : '\x1b' ∉ s) : dropEscapes s = s := by
  simpa [dropEscapes] using dropEscapes_append h []

theorem inSequence_append (hb : ∀ c ∈ body, c.isAlpha = false) (hl : letter.isAlpha = true)
    (rest : List Char) : dropEscapes.inSequence (body ++ letter :: rest) = dropEscapes rest := by
  induction body with
  | nil => rw [List.nil_append, dropEscapes.inSequence, if_pos hl]
  | cons c body ih =>
    obtain ⟨hc, hb⟩ := List.forall_mem_cons.mp hb
    rw [List.cons_append, dropEscapes.inSequence, if_neg (by simp [hc]), ih hb]

theorem dropEscapes_sequence (hb : ∀ c ∈ body, c.isAlpha = false) (hl : letter.isAlpha = true)
    (rest : List Char) :
    dropEscapes ('\x1b' :: '[' :: (body ++ letter :: rest)) = dropEscapes rest := by
  rw [dropEscapes, inSequence_append hb hl]

/-- **No escape character is left**, within a sequence or without. -/
theorem escape_notMem_dropEscapes (s : List Char) : '\x1b' ∉ dropEscapes s := by
  refine dropEscapes.induct (fun s => '\x1b' ∉ dropEscapes.inSequence s)
    (fun s => '\x1b' ∉ dropEscapes s) ?_ ?_ ?_ ?_ ?_ ?_ ?_ s
  · simp [dropEscapes.inSequence]
  · intro c rest hc ih
    rwa [dropEscapes.inSequence, if_pos hc]
  · intro c rest hc ih
    rwa [dropEscapes.inSequence, if_neg hc]
  · simp [dropEscapes]
  · intro rest ih
    rwa [dropEscapes]
  · intro rest hrest ih
    rwa [dropEscapes.eq_3 rest hrest]
  · intro c rest _ hc ih
    rw [dropEscapes_cons hc]
    exact List.not_mem_cons_of_ne_of_not_mem (Ne.symm hc) ih

/-! ## Lines -/

theorem isWord_of_mem_words {w : List Char} (h : w ∈ words s) : IsWord w :=
  (worded_iff.mpr rfl).isWord w h

/-- What is on the line is a space or comes from the text, without escapes. -/
theorem eq_space_or_of_mem_cleanStderr (h : c ∈ cleanStderr s) :
    c = ' ' ∨ c ∈ (dropEscapes s).filter isAscii :=
  (eq_space_or_of_mem_unwords h).imp_right fun ⟨w, hw, hc⟩ => (worded_iff.mpr rfl).subset w hw hc

theorem isAscii_of_mem_cleanStderr (h : c ∈ cleanStderr s) : isAscii c = true := by
  rcases eq_space_or_of_mem_cleanStderr h with rfl | h
  · decide
  · exact (List.mem_filter.mp h).2

theorem escape_notMem_cleanStderr (s : List Char) : '\x1b' ∉ cleanStderr s := by
  intro h
  rcases eq_space_or_of_mem_cleanStderr h with h | h
  · exact absurd h (by decide)
  · exact escape_notMem_dropEscapes s (List.mem_filter.mp h).1

theorem cleanStderr_plain (he : '\x1b' ∉ s) (ha : ∀ c ∈ s, isAscii c = true) :
    cleanStderr s = unwords (words s) := by
  rw [cleanStderr, dropEscapes_of_notMem he, List.filter_eq_self.mpr ha]

/-- **A line of words is left as it is.** -/
theorem cleanStderr_eq_self (s : List Char) : cleanStderr (cleanStderr s) = cleanStderr s := by
  rw [cleanStderr_plain (escape_notMem_cleanStderr s) fun _ => isAscii_of_mem_cleanStderr]
  exact congrArg unwords (words_unwords fun _ => isWord_of_mem_words)

/-- **One clean line.** Whatever an engine says, the line is in ASCII, has no escape character, and no
white space but single spaces between its words; putting it on a line again changes nothing. A text
without escape characters in ASCII keeps its words. Behind a text without escape characters, it makes no
difference whether there is a complete sequence or none. -/
theorem cleanStderr_clean (s : List Char) :
    (∀ c ∈ cleanStderr s, isAscii c = true) ∧ '\x1b' ∉ cleanStderr s ∧
      '\n' ∉ cleanStderr s ∧ '\r' ∉ cleanStderr s ∧ IsTidy (cleanStderr s) ∧
      cleanStderr (cleanStderr s) = cleanStderr s ∧
      ('\x1b' ∉ s → (∀ c ∈ s, isAscii c = true) →
        ∃ ws, Worded s ws ∧ cleanStderr s = unwords ws) ∧
      ('\x1b' ∉ s → ∀ body letter rest, (∀ c ∈ body, c.isAlpha = false) → letter.isAlpha = true →
        cleanStderr (s ++ '\x1b' :: '[' :: (body ++ letter :: rest)) = cleanStderr (s ++ rest)) := by
  have htidy : IsTidy (cleanStderr s) := isTidy_unwords fun _ => isWord_of_mem_words
  have hbreak : ∀ c, isBlank c = true → c ≠ ' ' → c ∉ cleanStderr s :=
    fun c hb hc h => hc (htidy.blanks c h hb)
  refine ⟨fun _ => isAscii_of_mem_cleanStderr, escape_notMem_cleanStderr s,
    hbreak '\n' (by decide) (by decide), hbreak '\r' (by decide) (by decide), htidy,
    cleanStderr_eq_self s, fun he ha => ?_, fun he body letter rest hb hl => ?_⟩
  · exact ⟨words s, worded_iff.mpr rfl, cleanStderr_plain he ha⟩
  · rw [cleanStderr, cleanStderr, dropEscapes_append he, dropEscapes_append he,
      dropEscapes_sequence hb hl]

/-- A sequence with an escape character in it, before a bracket. -/
theorem cleanStderr_clean_colored :
    let s := "Error:\n  bad\tinput ".toList
    '\x1b' ∉ s ∧ cleanStderr s = "Error: bad input".toList ∧
      cleanStderr (s ++ '\x1b' :: '[' :: ("31;\x1b[".toList ++ 'm' :: "[m]\r\n".toList)) =
        "Error: bad input [m]".toList := by
  intro s
  have he : '\x1b' ∉ s := by decide +kernel
  have hascii : s.all isAscii = true := by decide +kernel
  have hbody : "31;\x1b[".toList.all (fun c => !c.isAlpha) = true := by decide +kernel
  have hbody : ∀ c ∈ "31;\x1b[".toList, c.isAlpha = false := fun c hc => by
    simpa using List.all_eq_true.mp hbody c hc
  obtain ⟨-, -, -, -, -, -, hplain, hsequence⟩ := cleanStderr_clean s
  obtain ⟨ws, hws, hline⟩ := hplain he (List.all_eq_true.mp hascii)
  refine ⟨he, ?_, ?_⟩
  · rw [hline, ← worded_iff.mp hws]
    decide +kernel
  · rw [hsequence he "31;\x1b[".toList 'm' "[m]\r\n".toList hbody (by decide)]
    decide +kernel

end Provision.Engine
