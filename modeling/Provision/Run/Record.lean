import Provision.Json.Record
import Provision.Json.Printer
import Provision.Json.Parser
import Provision.Run.Phase
import Provision.Time.Rfc3339

/-!
# Phases as JSON

Each type has a value (`toJson`) and a reader of values (`ofJson?`). Statuses and kinds stand as
their names, times as text, and a phase with its fields in the order of the structure. A missing
report or claim reads as `null`.
-/

namespace Provision

namespace RunStatus

/-- The name of a status. -/
def toJson (s : RunStatus) : Json :=
  Json.ofString s.name

/-- The status with a name. -/
def ofJson? : Json → Option RunStatus :=
  Json.name? ofName?

end RunStatus

namespace PhaseStatus

/-- The name of a status. -/
def toJson (s : PhaseStatus) : Json :=
  Json.ofString s.name

/-- The status with a name. -/
def ofJson? : Json → Option PhaseStatus :=
  Json.name? ofName?

end PhaseStatus

namespace PhaseKind

/-- The name of a phase. -/
def toJson (k : PhaseKind) : Json :=
  Json.ofString k.name

/-- The phase with a name. -/
def ofJson? : Json → Option PhaseKind :=
  Json.name? ofName?

end PhaseKind

namespace Instant

/-- The text of a time. -/
def toText (t : Instant) : String :=
  String.ofList (Rfc3339.write t)

/-- The text of a time. -/
def toJson (t : Instant) : Json :=
  Json.ofString t.toText

/-- The time that a text gives. -/
def ofJson? (v : Json) : Option Instant :=
  (Json.string? v).bind fun s => Rfc3339.read? s.toList

end Instant

namespace Entered

variable {σ : Type}

/-- An entry of a log. -/
def toJson (status : σ → Json) (e : Entered σ) : Json :=
  Json.ofMembers [("status", status e.status), ("timestamp", e.time.toJson)]

/-- An entry of a log. -/
def ofJson? (status : Json → Option σ) (v : Json) : Option (Entered σ) :=
  match Json.fields? ["status", "timestamp"] v with
  | some [some s, some t] =>
    match status s, Instant.ofJson? t with
    | some s, some t => some ⟨s, t⟩
    | _, _ => none
  | _ => none

end Entered

namespace Report

/-- The three counts. -/
def toJson (r : Report) : Json :=
  Json.ofMembers [("additions", Json.ofInt r.additions), ("changes", Json.ofInt r.changes),
    ("destructions", Json.ofInt r.destructions)]

/-- The three counts. -/
def ofJson? (v : Json) : Option Report :=
  match Json.fields? ["additions", "changes", "destructions"] v with
  | some [some a, some c, some d] =>
    match Json.natBelow? bound a, Json.natBelow? bound c, Json.natBelow? bound d with
    | some a, some c, some d => some ⟨a, c, d⟩
    | _, _, _ => none
  | _ => none

end Report

namespace Phase

/-- The names of a phase's fields, in the order they are written. -/
def fieldNames : List String :=
  ["run_id", "kind", "status", "status_timestamps", "report", "claimed_by"]

/-- A phase with all its fields. -/
def toJson (p : Phase) : Json :=
  Json.ofMembers [
    ("run_id", Json.ofString p.run),
    ("kind", p.kind.toJson),
    ("status", p.status.toJson),
    ("status_timestamps", .array (p.log.map (Entered.toJson PhaseStatus.toJson))),
    ("report", (p.report.map Report.toJson).getD .null),
    ("claimed_by", (p.claimedBy.map Json.ofString).getD .null)]

/-- A phase; the report and the claim may be missing. -/
def ofJson? (v : Json) : Option Phase :=
  match Json.fields? fieldNames v with
  | some [some run, some kind, some status, some log, report, claim] => do
    let run ← Json.string? run
    let kind ← PhaseKind.ofJson? kind
    let status ← PhaseStatus.ofJson? status
    let log ← Json.list? (Entered.ofJson? PhaseStatus.ofJson?) log
    let report ← Json.optional? Report.ofJson? (report.getD .null)
    let claim ← Json.optional? Json.string? (claim.getD .null)
    some ⟨run, kind, status, log, report, claim⟩
  | _ => none

end Phase

/-- What a text gives to a reader of values. -/
def Json.decode? {α : Type} (read : Json → Option α) (text : String) : Option α :=
  (Json.parse text.toList).bind read

end Provision
