import Provision.Event
import Provision.Json.Printer

/-!
# Views

What a client is shown of runs, workspaces, logs and events. A view is a JSON value; it leaves out times
and shows statuses by their names. Bytes are shown as text where they are text, and by their hexadecimal
digits elsewhere.
-/

namespace Provision

open Provision.Text (Bytes)

namespace Json

/-- A natural number. -/
def ofNat (n : Nat) : Json :=
  ofInt n

/-- Texts. -/
def ofStrings (texts : List String) : Json :=
  .array (texts.map ofString)

/-- A value, or `null`. -/
def orNull (v : Option Json) : Json :=
  v.getD .null

/-- A text, or `null`. -/
def ofString? (s : Option String) : Json :=
  orNull (s.map ofString)

/-- The two hexadecimal digits of a byte. -/
def hexByte (b : UInt8) : List Char :=
  [hexDigit (b.toNat / 16), hexDigit (b.toNat % 16)]

/-- Bytes, as text if they are text. -/
def ofBytes (data : Bytes) : Json :=
  match String.fromUTF8? ⟨data.toArray⟩ with
  | some s => ofString s
  | none => ofMembers [("hex", ofString (String.ofList (data.flatMap hexByte)))]

end Json

open Json (ofString ofString? ofStrings ofNat ofInt ofMembers ofBytes orNull)

/-- The three counts of a report. -/
def Report.view (r : Report) : Json :=
  .array [ofNat r.additions, ofNat r.changes, ofNat r.destructions]

/-- The kind and the identifier of a holder. -/
def Holder.view (h : Holder) : Json :=
  ofStrings [h.kind, h.id]

/-- The holder of a lock, or `null`. -/
def Workspace.lockView (w : Workspace) : Json :=
  orNull (w.lock.map Holder.view)

/-- A phase. -/
def Phase.view (p : Phase) : Json :=
  ofMembers [("run_id", ofString p.run), ("kind", ofString p.kind.name),
    ("status", ofString p.status.name), ("done", .bool p.status.isDone),
    ("log", ofStrings (p.log.map (·.status.name))),
    ("report", orNull (p.report.map Report.view)), ("claimed_by", ofString? p.claimedBy)]

/-- The milliseconds from the cancel of a run to the first moment of a forced one. -/
def Run.coolOffMillis? (r : Run) : Option Int :=
  match r.forceCancelFrom, r.timeOf? .canceled with
  | some available, some time => some (available.millisSince time)
  | _, _ => none

/-- A run. -/
def Run.view (r : Run) : Json :=
  ofMembers [("id", ofString r.id), ("organization", ofString r.organization),
    ("workspace", ofString r.workspace), ("cv", ofString r.configuration),
    ("speculative", .bool r.speculative), ("auto_apply", .bool r.autoApply),
    ("is_destroy", .bool r.isDestroy), ("message", ofString? r.message),
    ("status", ofString r.status.name), ("done", .bool r.isDone),
    ("queued_phase", ofString? (r.status.queuedPhase?.map (·.name))),
    ("log", ofStrings (r.log.map (·.status.name))),
    ("log_ordered", .bool (Instant.areOrdered (r.log.map (·.time)))),
    ("plan", r.plan.view), ("apply", r.apply.view),
    ("cool_off_ms", orNull (r.coolOffMillis?.map ofInt))]

/-- A workspace. -/
def Workspace.view (w : Workspace) : Json :=
  ofMembers [("id", ofString w.id), ("name", ofString w.name),
    ("organization", ofString w.organization), ("auto_apply", .bool w.autoApply),
    ("lock", w.lockView), ("locked", .bool w.isLocked), ("user_locked", .bool w.isUserLocked),
    ("current_run", ofString? w.currentRun)]

/-- A log chunk. -/
def StoredChunk.view (c : StoredChunk) : Json :=
  ofMembers [("id", ofInt c.id), ("run", ofString c.chunk.run),
    ("phase", ofString c.chunk.phase.name), ("offset", ofInt c.chunk.offset),
    ("data", ofBytes c.chunk.data)]

/-- What an event is about. -/
def Payload.view : Payload → Json
  | .organization o => ofMembers [("organization", ofString o.name)]
  | .workspace w => ofMembers [("workspace", ofString w.id), ("lock", w.lockView),
      ("current_run", ofString? w.currentRun)]
  | .run r => ofMembers [("run", ofString r.id), ("status", ofString r.status.name)]
  | .chunk c => ofMembers [("chunk", c.view)]
  | .deleted relation name =>
    ofMembers [("deleted", ofString relation), ("id", ofString name)]

/-- An event. -/
def Event.view (e : Event) : Json :=
  ofMembers [("type", ofString e.type.describe), ("local", .bool e.isLocal),
    ("id", ofString e.payload.id), ("payload", e.payload.view)]

end Provision
