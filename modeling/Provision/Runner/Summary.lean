import Provision.Run.Phase
import Provision.Text.Lines
import Provision.Text.Numeral

/-!
# Resource summaries

An engine ends its output with one line that counts the resources it changes. The line is looked for
among all lines, blanks at its ends apart.

* `Summary.ofPlan?` reads `Plan: 1 to add, 2 to change, 3 to destroy.` and takes the line
  `No changes.` for zeros. The first line that begins in one of these two ways decides.
* `Summary.ofApply?` reads `Apply complete! Resources: 1 added, 2 changed, 3 destroyed.` A line that
  is not well formed is passed over.
-/

namespace Provision.Summary

open Provision.Text (trim trimEndWhere lines listed natBelow?)

/-- What stands in front of the counts of a plan. -/
def planIntro : List Char :=
  "Plan: ".toList

/-- How a plan without changes begins. -/
def noChanges : List Char :=
  "No changes.".toList

/-- What stands in front of the counts of an apply. -/
def applyIntro : List Char :=
  "Apply complete! Resources: ".toList

/-- A number followed by its label, with blanks around the number. -/
def count? (label : String) (part : List Char) : Option Nat :=
  (label.toList.isSuffixOf? part).bind fun number => natBelow? Report.bound (trim number)

/-- Three labelled counts, separated by commas and followed by any number of dots. -/
def counts? (first second third : String) (text : List Char) : Option Report :=
  match listed (trimEndWhere (· == '.') text) with
  | [a, c, d] =>
    match count? first a, count? second c, count? third d with
    | some a, some c, some d => some ⟨a, c, d⟩
    | _, _, _ => none
  | _ => none

/-- The counts of a plan after their introduction. -/
def planCounts? : List Char → Option Report :=
  counts? "to add" "to change" "to destroy"

/-- The counts of an apply after their introduction. -/
def applyCounts? : List Char → Option Report :=
  counts? "added" "changed" "destroyed"

/-- The report of the first line that begins like a summary of a plan. -/
def planLines : List (List Char) → Option Report
  | [] => none
  | line :: rest =>
    match planIntro.isPrefixOf? line with
    | some counts => planCounts? counts
    | none => if noChanges.isPrefixOf line then some Report.empty else planLines rest

/-- The report in the output of a plan. -/
def ofPlan? (output : List Char) : Option Report :=
  planLines ((lines output).map trim)

/-- The report in a line of the output of an apply. -/
def applyLine? (line : List Char) : Option Report :=
  (applyIntro.isPrefixOf? line).bind applyCounts?

/-- The report in the output of an apply. -/
def ofApply? (output : List Char) : Option Report :=
  ((lines output).map trim).findSome? applyLine?

end Provision.Summary
