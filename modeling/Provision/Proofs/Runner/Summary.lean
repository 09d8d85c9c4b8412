import Provision.Proofs.Runner.Wording

/-!
# Finding a summary

What is reported for any output of an engine, line by line.

* `Summary.planLines_skip`, `Summary.planLines_of_tells`, `Summary.planLines_of_intro`: the first line
  that begins like a summary of a plan decides, whether it is one or not.
* `Summary.plan_found`: so the first summary of a plan is found unless a line before it begins like
  one.
* `Summary.applyLine?_eq_some_iff`: a line of an apply is read exactly if it is a summary.
* `Summary.apply_found`: so the first summary of an apply is found, whatever stands around it.
-/

namespace Provision.Summary

open Provision.Text (trim lines)

variable {line : List Char} {before rest : List (List Char)} {r : Report}

/-! ## Plans -/

theorem planLines_skip (h : ∀ l ∈ before, ¬ planIntro <+: l ∧ ¬ noChanges <+: l)
    (rest : List (List Char)) : planLines (before ++ rest) = planLines rest := by
  induction before with
  | nil => rfl
  | cons l before ih =>
    obtain ⟨⟨hi, hn⟩, h⟩ := List.forall_mem_cons.mp h
    have hi : planIntro.isPrefixOf? l = none :=
      Option.eq_none_iff_forall_ne_some.mpr fun counts hc =>
        hi ⟨counts, List.isPrefixOf?_eq_some_iff_append_eq.mp hc⟩
    have hn : noChanges.isPrefixOf l = false :=
      Bool.eq_false_iff.mpr fun hp => hn (List.isPrefixOf_iff_prefix.mp hp)
    rw [List.cons_append, planLines, hi]
    dsimp only
    rw [hn, if_neg Bool.false_ne_true, ih h]

theorem planLines_intro (counts : List Char) (rest : List (List Char)) :
    planLines ((planIntro ++ counts) :: rest) = planCounts? counts := by
  rw [planLines, List.isPrefixOf?_eq_some_iff_append_eq.mpr rfl]

/-- **A summary is read** where no line before it decides. -/
theorem planLines_of_tells (h : Tells .plan line r) (rest : List (List Char)) :
    planLines (line :: rest) = some r := by
  obtain ⟨counts, rfl⟩ := h.exists_intro
  exact (planLines_intro counts rest).trans (tells_plan_iff.mp h)

/-- **A line that only begins like a summary** ends the search. -/
theorem planLines_of_intro (h : planIntro <+: line) (hn : ¬ IsSummary .plan line)
    (rest : List (List Char)) : planLines (line :: rest) = none := by
  obtain ⟨counts, rfl⟩ := h
  rw [planLines_intro]
  exact Option.eq_none_iff_forall_ne_some.mpr fun r hr => hn ⟨r, tells_plan_iff.mpr hr⟩

theorem intro_prefix_of_isSummary (h : IsSummary .plan line) : planIntro <+: line := by
  obtain ⟨r, h⟩ := h
  obtain ⟨counts, rfl⟩ := h.exists_intro
  exact ⟨counts, rfl⟩

/-- **Among lines of which none is a summary**, one that begins like a summary leaves nothing to be
read. -/
theorem planLines_dismiss (hs : ∀ l ∈ before, ¬ IsSummary .plan l)
    (hc : ∀ l ∈ before, ¬ noChanges <+: l) (h : ∃ l ∈ before, planIntro <+: l)
    (rest : List (List Char)) : planLines (before ++ rest) = none := by
  induction before with
  | nil => exact absurd h (by simp)
  | cons l before ih =>
    obtain ⟨hs₁, hs⟩ := List.forall_mem_cons.mp hs
    obtain ⟨hc₁, hc⟩ := List.forall_mem_cons.mp hc
    by_cases hi : planIntro <+: l
    · exact planLines_of_intro hi hs₁ (before ++ rest)
    · have h : ∃ l ∈ before, planIntro <+: l := by simpa [hi] using h
      have hl : ∀ k ∈ [l], ¬ planIntro <+: k ∧ ¬ noChanges <+: k := by simp [hi, hc₁]
      exact (planLines_skip hl (before ++ rest)).trans (ih hs hc h)

/-- **What is reported for a plan.** The counts of the first summary are, as long as no line before it
says that nothing changes and none begins like a summary; a line that does and is none takes the
report away. Output in which no line is a summary, or says that nothing changes, has no report. -/
theorem plan_found (output : List Char) :
    (∀ before line after r, (lines output).map trim = before ++ line :: after →
      Tells .plan line r → (∀ l ∈ before, ¬ IsSummary .plan l) → (∀ l ∈ before, ¬ noChanges <+: l) →
        ((∀ l ∈ before, ¬ planIntro <+: l) → ofPlan? output = some r) ∧
          ((∃ l ∈ before, planIntro <+: l) → ofPlan? output = none)) ∧
      ((∀ l ∈ (lines output).map trim, ¬ IsSummary .plan l ∧ ¬ noChanges <+: l) →
        ofPlan? output = none) := by
  refine ⟨fun before line after r hout ht hs hc => ⟨fun hi => ?_, fun hi => ?_⟩, fun h => ?_⟩
  · rw [ofPlan?, hout, planLines_skip fun l hl => ⟨hi l hl, hc l hl⟩]
    exact planLines_of_tells ht after
  · rw [ofPlan?, hout]
    exact planLines_dismiss hs hc hi (line :: after)
  · rw [ofPlan?, ← List.append_nil ((lines output).map trim)]
    by_cases hi : ∃ l ∈ (lines output).map trim, planIntro <+: l
    · exact planLines_dismiss (fun l hl => (h l hl).1) (fun l hl => (h l hl).2) hi []
    · exact planLines_skip (fun l hl => ⟨fun hp => hi ⟨l, hl, hp⟩, (h l hl).2⟩) []

/-- A summary among lines that mention one. -/
theorem plan_found_amid :
    ofPlan? "The plan: 9 to add\n  Plan: 2 to add, 1 to change, 0 to destroy.\r\nPlan: done".toList =
        some ⟨2, 1, 0⟩ ∧
      ofPlan? "Plans: 9 to add\n".toList = none := by
  have hmention : ¬ IsSummary .plan "The plan: 9 to add".toList :=
    fun h => absurd (intro_prefix_of_isSummary h) (by decide +kernel)
  have hplans : ¬ IsSummary .plan "Plans: 9 to add".toList :=
    fun h => absurd (intro_prefix_of_isSummary h) (by decide +kernel)
  obtain ⟨hfound, -⟩ := plan_found
    "The plan: 9 to add\n  Plan: 2 to add, 1 to change, 0 to destroy.\r\nPlan: done".toList
  obtain ⟨-, hnone⟩ := plan_found "Plans: 9 to add\n".toList
  refine ⟨(hfound ["The plan: 9 to add".toList] ((Written.plain 2 1 0).line .plan)
    ["Plan: done".toList] ⟨2, 1, 0⟩ ?_ ?_ ?_ ?_).1 ?_, hnone ?_⟩
  · rw [line_plain_plan]
    decide +kernel
  · exact tells_plain (by decide) (by decide) (by decide) .plan
  · exact List.forall_mem_singleton.mpr hmention
  · decide +kernel
  · decide +kernel
  · exact List.forall_mem_singleton.mpr ⟨hplans, by decide +kernel⟩

/-- **Not every summary of a plan is found**: a line before it that merely begins like one is taken
for it. -/
theorem not_plan_found_decoyed : ¬ ∀ output before line after r,
    (lines output).map trim = before ++ line :: after → Tells .plan line r →
      (∀ l ∈ before, ¬ IsSummary .plan l) → (∀ l ∈ before, ¬ noChanges <+: l) →
        ofPlan? output = some r := by
  intro h
  have hdecoy : ¬ IsSummary .plan "Plan: lots to add".toList := by
    rintro ⟨r, hr⟩
    have hr : planCounts? "lots to add".toList = some r := tells_plan_iff.mp hr
    have hn : planCounts? "lots to add".toList = none := by decide +kernel
    cases hn.symm.trans hr
  have hread := h "Plan: lots to add\nPlan: 1 to add, 2 to change, 3 to destroy.\n".toList
    ["Plan: lots to add".toList] ((Written.plain 1 2 3).line .plan) [] ⟨1, 2, 3⟩
    (by rw [line_plain_plan]; decide +kernel)
    (tells_plain (by decide) (by decide) (by decide) .plan)
    (List.forall_mem_singleton.mpr hdecoy) (by decide +kernel)
  have hnone : ofPlan? "Plan: lots to add\nPlan: 1 to add, 2 to change, 3 to destroy.\n".toList =
      none := by decide +kernel
  cases hnone.symm.trans hread

/-! ## Applies -/

theorem applyLine?_eq_some_iff : applyLine? line = some r ↔ Tells .apply line r := by
  rw [applyLine?, Option.bind_eq_some_iff]
  constructor
  · rintro ⟨counts, hp, hc⟩
    rw [← List.isPrefixOf?_eq_some_iff_append_eq.mp hp]
    exact tells_apply_iff.mpr hc
  · intro h
    obtain ⟨counts, rfl⟩ := h.exists_intro
    exact ⟨counts, List.isPrefixOf?_eq_some_iff_append_eq.mpr rfl, tells_apply_iff.mp h⟩

theorem applyLine?_eq_none_iff : applyLine? line = none ↔ ¬ IsSummary .apply line := by
  rw [Option.eq_none_iff_forall_ne_some, IsSummary, not_exists]
  exact forall_congr' fun r => not_congr applyLine?_eq_some_iff

/-- **What is reported for an apply**: the counts of the first line that is a summary, and nothing
else. So what an engine writes about its counts comes back, and a count that is out of bounds makes
its line count for nothing. -/
theorem apply_found (output : List Char) :
    (∀ r, ofApply? output = some r ↔
      ∃ before line after, (lines output).map trim = before ++ line :: after ∧
        Tells .apply line r ∧ ∀ l ∈ before, ¬ IsSummary .apply l) ∧
    (∀ a c d before after, (lines output).map trim = before ++
        ("Apply complete! Resources: " ++ toString a ++ " added, " ++ toString c ++ " changed, " ++
          toString d ++ " destroyed.").toList :: after →
      (∀ l ∈ before, ¬ IsSummary .apply l) → a < 2 ^ 32 → c < 2 ^ 32 → d < 2 ^ 32 →
        ofApply? output = some ⟨a, c, d⟩) ∧
    ∀ (w : Written) before after other,
      (lines output).map trim = before ++ w.line .apply :: after →
      (lines other).map trim = before ++ after → ¬ w.Fits → ofApply? output = ofApply? other := by
  have hexact : ∀ r, ofApply? output = some r ↔
      ∃ before line after, (lines output).map trim = before ++ line :: after ∧
        Tells .apply line r ∧ ∀ l ∈ before, ¬ IsSummary .apply l := by
    intro r
    rw [ofApply?, List.findSome?_eq_some_iff]
    simp only [applyLine?_eq_some_iff, applyLine?_eq_none_iff]
  refine ⟨hexact, ?_, ?_⟩
  · intro a c d before after hout hbefore ha hc hd
    rw [← line_plain_apply] at hout
    exact (hexact _).mpr ⟨before, _, after, hout, tells_plain ha hc hd .apply, hbefore⟩
  · intro w before after other hout hother hw
    have hskip : applyLine? (w.line .apply) = none :=
      applyLine?_eq_none_iff.mpr fun h => hw ((isSummary_line_iff w .apply).mp h)
    rw [ofApply?, ofApply?, hout, hother, List.findSome?_append, List.findSome?_append,
      List.findSome?_cons, hskip]

/-- A count that is out of bounds by one, and the line after it. -/
theorem apply_found_second :
    ofApply? ("Apply complete! Resources: 4294967296 added, 0 changed, 0 destroyed.\n" ++
        "Apply complete! Resources: 4294967295 added, 0 changed, 3 destroyed.\n").toList =
        some ⟨4294967295, 0, 3⟩ ∧
      ofApply? "Apply complete! Resources: 4294967296 added, 0 changed, 0 destroyed.".toList =
        ofApply? [] := by
  have hwrong : ¬ (Written.plain 4294967296 0 0).Fits := by
    simp [Written.Fits, Written.plain, Report.bound]
  obtain ⟨-, hplain, -⟩ := apply_found
    ("Apply complete! Resources: 4294967296 added, 0 changed, 0 destroyed.\n" ++
      "Apply complete! Resources: 4294967295 added, 0 changed, 3 destroyed.\n").toList
  obtain ⟨-, -, hskip⟩ := apply_found
    "Apply complete! Resources: 4294967296 added, 0 changed, 0 destroyed.".toList
  refine ⟨hplain 4294967295 0 3 [(Written.plain 4294967296 0 0).line .apply] [] ?_ ?_ (by decide)
    (by decide) (by decide), hskip (.plain 4294967296 0 0) [] [] [] ?_ rfl hwrong⟩
  · rw [line_plain_apply]
    decide +kernel
  · exact List.forall_mem_singleton.mpr fun h => hwrong ((isSummary_line_iff _ .apply).mp h)
  · rw [line_plain_apply]
    decide +kernel

end Provision.Summary
