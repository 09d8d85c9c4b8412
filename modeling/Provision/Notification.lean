import Provision.Event
import Provision.Run.Record

/-!
# Notifications

What one node tells the others about an event: its type, the identifier by which the payload can be
loaded, and the broker that sends it. The payload itself does not travel.
-/

namespace Provision

/-- A message between nodes. -/
structure Notification where
  /-- The kind of thing that changed. -/
  relation : String
  /-- How it changed. -/
  action : String
  /-- The identifier of the payload. -/
  id : String
  /-- The broker that sends the message. -/
  sender : String
  deriving DecidableEq, Repr

namespace Notification

/-- The message about an event. -/
def ofEvent (sender : String) (e : Event) : Notification :=
  ⟨e.type.relation, e.type.action, e.payload.id, sender⟩

/-- The names of the fields, in the order they are written. -/
def fieldNames : List String :=
  ["relation", "action", "id", "pid"]

/-- A message with its four fields. -/
def toJson (n : Notification) : Json :=
  Json.ofMembers [("relation", Json.ofString n.relation), ("action", Json.ofString n.action),
    ("id", Json.ofString n.id), ("pid", Json.ofString n.sender)]

/-- A message. -/
def ofJson? (v : Json) : Option Notification :=
  match Json.fields? fieldNames v with
  | some [some relation, some action, some id, some sender] => do
    let relation ← Json.string? relation
    let action ← Json.string? action
    let id ← Json.string? id
    let sender ← Json.string? sender
    some ⟨relation, action, id, sender⟩
  | _ => none

/-- The text of a message. -/
def encode (n : Notification) : String :=
  n.toJson.render

/-- The message that a text gives. -/
def decode? (text : String) : Option Notification :=
  Json.decode? ofJson? text

end Notification

end Provision
