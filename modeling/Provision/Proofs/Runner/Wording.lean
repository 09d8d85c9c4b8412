import Mathlib.Data.List.Basic
import Provision.Proofs.Text.Digits
import Provision.Proofs.Text.Ends
import Provision.Runner.Summary

/-!
# How a summary is written

The grammar of the lines that count resources, as a type with a printer.

* `Summary.Numeral`: a number with an optional plus sign and blanks around it.
* `Summary.Written`: three numerals and any number of dots; `Written.line` is the line they make in a
  `Wording`.
* `Summary.counts?_counts`, `Summary.exists_of_counts?`: reading gives back what was written, unless a
  count is out of bounds, and nothing else is read.
* `Summary.tells_iff`: the two together, for the whole line.
-/

namespace Provision.Summary

open Provision.Text (trim trimEndWhere listed isBlank natBelow? digits?)

/-! ## Numbers -/

/-- A number as it may be written. -/
structure Numeral where
  /-- What stands in front of the number. -/
  front : List Char := []
  /-- Whether a plus sign is written. -/
  hasPlus : Bool := false
  digits : List Char
  /-- What stands behind the number. -/
  back : List Char := []
  front_blank : ∀ c ∈ front, isBlank c = true
  digits_ne_nil : digits ≠ []
  digits_digit : ∀ c ∈ digits, c.isDigit = true
  back_blank : ∀ c ∈ back, isBlank c = true

namespace Numeral

/-- The number without blanks. -/
def body (n : Numeral) : List Char :=
  if n.hasPlus then '+' :: n.digits else n.digits

/-- The number as it is written. -/
def text (n : Numeral) : List Char :=
  n.front ++ n.body ++ n.back

/-- The number that is meant. -/
def value (n : Numeral) : ℕ :=
  Nat.ofDigitChars 10 n.digits 0

/-- A number without sign and superfluous zeros, and one space behind it. -/
def plain (n : ℕ) : Numeral where
  digits := Nat.toDigits 10 n
  back := [' ']
  front_blank := List.forall_mem_nil _
  digits_ne_nil := Nat.toDigits_ne_nil
  digits_digit _ := Text.isDigit_of_mem_toDigits
  back_blank := List.forall_mem_singleton.mpr (by decide)

@[simp] theorem value_plain (n : ℕ) : (plain n).value = n :=
  Nat.ofDigitChars_ten_toDigits

@[simp] theorem text_plain (n : ℕ) : (plain n).text = Nat.toDigits 10 n ++ [' '] := rfl

theorem body_cases (n : Numeral) : n.body = n.digits ∨ n.body = '+' :: n.digits := by
  unfold body
  split_ifs
  · exact .inr rfl
  · exact .inl rfl

theorem mem_body {n : Numeral} {c : Char} (h : c ∈ n.body) : c = '+' ∨ c.isDigit = true := by
  rcases n.body_cases with hb | hb
  · exact .inr (n.digits_digit c (hb ▸ h))
  · rw [hb] at h
    exact (List.mem_cons.mp h).imp_right (n.digits_digit c)

theorem isBlank_of_mem_body {n : Numeral} {c : Char} (h : c ∈ n.body) : isBlank c = false := by
  obtain rfl | hd := mem_body h
  · decide
  · exact Text.isBlank_of_isDigit hd

theorem trim_text (n : Numeral) : trim n.text = n.body := by
  refine Text.trim_append ?_ (fun c hc => ?_) (fun c hc => ?_) n.front_blank n.back_blank
  · rcases n.body_cases with hb | hb
    · rw [hb]
      exact n.digits_ne_nil
    · rw [hb]
      exact List.cons_ne_nil _ _
  · exact isBlank_of_mem_body (List.mem_of_mem_head? hc)
  · exact isBlank_of_mem_body (List.mem_of_mem_getLast? hc)

theorem digits?_digits (n : Numeral) : digits? n.digits = some n.value :=
  Text.digits?_eq_some_iff.mpr ⟨n.digits_ne_nil, n.digits_digit, rfl⟩

/-- **Reading gives the number** that is meant, if it is below the bound. -/
theorem natBelow?_trim_text (n : Numeral) (bound : ℕ) :
    natBelow? bound (trim n.text) = if n.value < bound then some n.value else none := by
  rw [trim_text, Text.natBelow?_of_digits? n.body_cases n.digits?_digits]

/-- **What is read as a number** is written as one. -/
theorem exists_of_natBelow? {bound m : ℕ} {s : List Char} (h : natBelow? bound (trim s) = some m) :
    ∃ n : Numeral, s = n.text ∧ n.value = m ∧ m < bound := by
  obtain ⟨front, back, hf, hb, hs⟩ := Text.exists_eq_append_trim s
  obtain ⟨digits, hd, hv, hlt⟩ := Text.exists_of_natBelow? h
  obtain ⟨hne, hdigit, hval⟩ := Text.digits?_eq_some_iff.mp hv
  rcases hd with hd | hd
  · exact ⟨⟨front, false, digits, back, hf, hne, hdigit, hb⟩, hs.trans (by rw [hd]; rfl), hval, hlt⟩
  · exact ⟨⟨front, true, digits, back, hf, hne, hdigit, hb⟩, hs.trans (by rw [hd]; rfl), hval, hlt⟩

theorem notMem_text (n : Numeral) : ',' ∉ n.text := by
  intro h
  rcases List.mem_append.mp h with h | h
  · rcases List.mem_append.mp h with h | h
    · exact absurd (n.front_blank _ h) (by decide)
    · rcases mem_body h with h | h
      · exact absurd h (by decide)
      · exact absurd h (by decide)
  · exact absurd (n.back_blank _ h) (by decide)

end Numeral

/-! ## Summaries -/

/-- The words around the counts. -/
structure Wording where
  /-- What the line begins with. -/
  intro : String
  /-- What stands behind the resources added. -/
  added : String
  /-- What stands behind the resources changed. -/
  changed : String
  /-- What stands behind the resources destroyed. -/
  destroyed : String
  /-- No label can be taken for the end of a part. -/
  noComma : ',' ∉ added.toList ∧ ',' ∉ changed.toList ∧ ',' ∉ destroyed.toList
  /-- The last label is not empty and does not end with a dot. -/
  noDot : ∃ c, destroyed.toList.getLast? = some c ∧ c ≠ '.'

namespace Wording

/-- The wording of a plan. -/
def plan : Wording where
  intro := "Plan: "
  added := "to add"
  changed := "to change"
  destroyed := "to destroy"
  noComma := by decide
  noDot := ⟨'y', by decide⟩

/-- The wording of an apply. -/
def apply : Wording where
  intro := "Apply complete! Resources: "
  added := "added"
  changed := "changed"
  destroyed := "destroyed"
  noComma := by decide
  noDot := ⟨'d', by decide⟩

end Wording

/-- A summary as it may be written. -/
structure Written where
  added : Numeral
  changed : Numeral
  destroyed : Numeral
  /-- How many dots it ends with. -/
  dots : ℕ

namespace Written

/-- What is counted. -/
def report (w : Written) : Report :=
  ⟨w.added.value, w.changed.value, w.destroyed.value⟩

/-- Whether all counts are below the bound of a report. -/
def Fits (w : Written) : Prop :=
  w.added.value < Report.bound ∧ w.changed.value < Report.bound ∧ w.destroyed.value < Report.bound

instance (w : Written) : Decidable w.Fits :=
  inferInstanceAs (Decidable (_ ∧ _ ∧ _))

/-- The numbers with their labels. -/
def parts (w : Written) (x : Wording) : List (List Char) :=
  [w.added.text ++ x.added.toList, w.changed.text ++ x.changed.toList,
    w.destroyed.text ++ x.destroyed.toList]

/-- What follows the beginning of the line. -/
def counts (w : Written) (x : Wording) : List Char :=
  ", ".toList.intercalate (w.parts x) ++ List.replicate w.dots '.'

/-- The line. -/
def line (w : Written) (x : Wording) : List Char :=
  x.intro.toList ++ w.counts x

/-- A summary without superfluous signs. -/
def plain (a c d : ℕ) : Written :=
  ⟨.plain a, .plain c, .plain d, 1⟩

end Written

variable {x : Wording} {r : Report}

theorem count?_text (label : String) (n : Numeral) :
    count? label (n.text ++ label.toList) =
      if n.value < Report.bound then some n.value else none := by
  rw [count?, List.isSuffixOf?_eq_some_iff_append_eq.mpr rfl, Option.bind_some,
    n.natBelow?_trim_text]

theorem exists_of_count? {label : String} {part : List Char} {m : ℕ}
    (h : count? label part = some m) :
    ∃ n : Numeral, part = n.text ++ label.toList ∧ n.value = m ∧ m < Report.bound := by
  obtain ⟨number, hp, hm⟩ := Option.bind_eq_some_iff.mp h
  obtain ⟨n, rfl, hn⟩ := Numeral.exists_of_natBelow? hm
  exact ⟨n, (List.isSuffixOf?_eq_some_iff_append_eq.mp hp).symm, hn⟩

theorem notMem_of_mem_parts (w : Written) (x : Wording) : ∀ part ∈ w.parts x, ',' ∉ part := by
  have hcomma : ∀ (n : Numeral) {label : String}, ',' ∉ label.toList →
      ',' ∉ n.text ++ label.toList := fun n _ hl h =>
    (List.mem_append.mp h).elim n.notMem_text hl
  obtain ⟨h₁, h₂, h₃⟩ := x.noComma
  simp only [Written.parts, List.forall_mem_cons]
  exact ⟨hcomma _ h₁, hcomma _ h₂, hcomma _ h₃, List.forall_mem_nil _⟩

/-- **The parts of a summary** are its numbers, each with its label. -/
theorem listed_counts (w : Written) (x : Wording) :
    listed (trimEndWhere (· == '.') (w.counts x)) = w.parts x := by
  rw [Written.counts, Text.trimEndWhere_append]
  · exact Text.listed_intercalate (List.cons_ne_nil _ _) (notMem_of_mem_parts w x)
  · obtain ⟨last, hlast, hdot⟩ := x.noDot
    obtain ⟨init, hinit⟩ : x.destroyed.toList <:+ ", ".toList.intercalate (w.parts x) :=
      ⟨w.added.text ++ x.added.toList ++ ", ".toList ++ (w.changed.text ++ x.changed.toList) ++
        ", ".toList ++ w.destroyed.text, by simp [Written.parts, List.intercalate]⟩
    intro c hc
    rw [← hinit, List.getLast?_append, hlast] at hc
    cases hc
    exact beq_eq_false_iff_ne.mpr hdot
  · exact fun c hc => beq_iff_eq.mpr (List.eq_of_mem_replicate hc)

/-- **Reading gives what is counted**, if every count is below the bound. -/
theorem counts?_counts (w : Written) (x : Wording) :
    counts? x.added x.changed x.destroyed (w.counts x) = if w.Fits then some w.report else none := by
  rw [counts?, listed_counts]
  simp only [Written.parts, count?_text, Written.Fits, Written.report]
  by_cases h₁ : w.added.value < Report.bound
  · by_cases h₂ : w.changed.value < Report.bound
    · by_cases h₃ : w.destroyed.value < Report.bound
      · simp [h₁, h₂, h₃]
      · simp [h₁, h₂, h₃]
    · simp [h₁, h₂]
  · simp [h₁]

/-- **What is read as counts** is written as a summary. -/
theorem exists_of_counts? {text : List Char}
    (h : counts? x.added x.changed x.destroyed text = some r) :
    ∃ w : Written, text = w.counts x ∧ w.Fits ∧ w.report = r := by
  unfold counts? at h
  split at h
  case h_1 a c d hparts =>
    split at h
    case h_1 ha hc hd =>
      obtain ⟨n₁, rfl, rfl, h₁⟩ := exists_of_count? ha
      obtain ⟨n₂, rfl, rfl, h₂⟩ := exists_of_count? hc
      obtain ⟨n₃, rfl, rfl, h₃⟩ := exists_of_count? hd
      obtain ⟨dots, hdots, htext⟩ := Text.exists_eq_trimEndWhere_append (· == '.') text
      have hdots : dots = List.replicate dots.length '.' :=
        List.eq_replicate_iff.mpr ⟨rfl, fun c hc => beq_iff_eq.mp (hdots c hc)⟩
      have hbody := Text.intercalate_listed (trimEndWhere (· == '.') text)
      rw [hparts] at hbody
      exact ⟨⟨n₁, n₂, n₃, dots.length⟩, htext.trans (congrArg₂ (· ++ ·) hbody.symm hdots),
        ⟨h₁, h₂, h₃⟩, Option.some.inj h⟩
    case h_2 => cases h
  case h_2 => cases h

/-! ## Lines -/

/-- The line is a summary that counts `r`. -/
def Tells (x : Wording) (line : List Char) (r : Report) : Prop :=
  ∃ w : Written, line = w.line x ∧ w.Fits ∧ w.report = r

/-- The line is a summary. -/
def IsSummary (x : Wording) (line : List Char) : Prop :=
  ∃ r, Tells x line r

/-- **A line is read** exactly if it is a summary, and as what it counts. -/
theorem tells_iff (x : Wording) {counts : List Char} :
    Tells x (x.intro.toList ++ counts) r ↔ counts? x.added x.changed x.destroyed counts = some r := by
  constructor
  · rintro ⟨w, hline, hfits, rfl⟩
    rw [List.append_cancel_left hline, counts?_counts, if_pos hfits]
  · intro h
    obtain ⟨w, rfl, hw⟩ := exists_of_counts? h
    exact ⟨w, rfl, hw⟩

theorem tells_plan_iff {counts : List Char} :
    Tells .plan (planIntro ++ counts) r ↔ planCounts? counts = some r :=
  tells_iff .plan

theorem tells_apply_iff {counts : List Char} :
    Tells .apply (applyIntro ++ counts) r ↔ applyCounts? counts = some r :=
  tells_iff .apply

theorem Tells.exists_intro {line : List Char} (h : Tells x line r) :
    ∃ counts, line = x.intro.toList ++ counts := by
  obtain ⟨w, rfl, -⟩ := h
  exact ⟨w.counts x, rfl⟩

/-- **A line counts one thing.** -/
theorem Tells.unique {line : List Char} {r' : Report} (h : Tells x line r) (h' : Tells x line r') :
    r = r' := by
  obtain ⟨counts, rfl⟩ := h.exists_intro
  exact Option.some.inj (((tells_iff x).mp h).symm.trans ((tells_iff x).mp h'))

/-- **A count out of bounds makes a line no summary.** -/
theorem isSummary_line_iff (w : Written) (x : Wording) : IsSummary x (w.line x) ↔ w.Fits := by
  constructor
  · rintro ⟨r, h⟩
    have h := (tells_iff x).mp h
    rw [counts?_counts] at h
    by_contra hn
    rw [if_neg hn] at h
    cases h
  · exact fun h => ⟨w.report, w, rfl, h, rfl⟩

/-! ## As an engine writes them -/

theorem tells_plain {a c d : ℕ} (ha : a < 2 ^ 32) (hc : c < 2 ^ 32) (hd : d < 2 ^ 32)
    (x : Wording) : Tells x ((Written.plain a c d).line x) ⟨a, c, d⟩ := by
  refine ⟨.plain a c d, rfl, ?_, ?_⟩
  · simp only [Written.Fits, Written.plain, Numeral.value_plain]
    exact ⟨ha, hc, hd⟩
  · simp only [Written.report, Written.plain, Numeral.value_plain]

theorem line_plain_plan (a c d : ℕ) :
    (Written.plain a c d).line .plan =
      ("Plan: " ++ toString a ++ " to add, " ++ toString c ++ " to change, " ++ toString d ++
        " to destroy.").toList := by
  simp [Written.line, Written.counts, Written.parts, Written.plain, List.intercalate, Wording.plan]

theorem line_plain_apply (a c d : ℕ) :
    (Written.plain a c d).line .apply =
      ("Apply complete! Resources: " ++ toString a ++ " added, " ++ toString c ++ " changed, " ++
        toString d ++ " destroyed.").toList := by
  simp [Written.line, Written.counts, Written.parts, Written.plain, List.intercalate, Wording.apply]

end Provision.Summary
