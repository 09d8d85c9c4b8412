import Provision.Log.Basic
import Provision.Organization
import Provision.Run.Basic
import Provision.Workspace

/-!
# Events

Every change to an organization, a workspace, a run or a log is announced by an event. Its type is
a relation, which says what kind of thing changed, and an action, which says how; its payload is the
thing after the change, or a reference to what is gone.
-/

namespace Provision

/-- The kind of change. -/
inductive EventType
  | organizationCreated
  | organizationDeleted
  | workspaceCreated
  /-- A workspace's settings or its current run changed. -/
  | workspaceUpdated
  | workspaceLocked
  | workspaceUnlocked
  | workspaceDeleted
  | runCreated
  /-- A run changed its status. -/
  | runStatusUpdate
  | runDeleted
  /-- A log chunk was stored. -/
  | chunkCreated
  deriving DecidableEq, Repr

namespace EventType

/-- Every type. -/
def all : List EventType :=
  [.organizationCreated, .organizationDeleted, .workspaceCreated, .workspaceUpdated,
    .workspaceLocked, .workspaceUnlocked, .workspaceDeleted, .runCreated, .runStatusUpdate,
    .runDeleted, .chunkCreated]

/-- The kind of thing that changed. -/
def relation : EventType → String
  | .organizationCreated | .organizationDeleted => "organization"
  | .workspaceCreated | .workspaceUpdated | .workspaceLocked | .workspaceUnlocked
  | .workspaceDeleted => "workspace"
  | .runCreated | .runStatusUpdate | .runDeleted => "run"
  | .chunkCreated => "chunk"

/-- How it changed. -/
def action : EventType → String
  | .organizationCreated | .workspaceCreated | .runCreated | .chunkCreated => "created"
  | .organizationDeleted | .workspaceDeleted | .runDeleted => "deleted"
  | .workspaceUpdated => "updated"
  | .workspaceLocked => "locked"
  | .workspaceUnlocked => "unlocked"
  | .runStatusUpdate => "status_update"

/-- The type with a relation and an action. -/
def ofParts? (relation action : String) : Option EventType :=
  all.find? fun t => t.relation == relation && t.action == action

/-- Whether something is gone. -/
def isDeletion (t : EventType) : Bool :=
  t.action == "deleted"

/-- The type in words. -/
def describe (t : EventType) : String :=
  t.relation ++ "_" ++ t.action

end EventType

/-- What an event is about. -/
inductive Payload
  | organization (org : Organization)
  | workspace (ws : Workspace)
  | run (run : Run)
  /-- A log chunk. -/
  | chunk (chunk : StoredChunk)
  /-- Something that is gone, by its relation and identifier. -/
  | deleted (relation : String) (id : String)
  deriving DecidableEq, Repr

/-- The identifier by which another node can load the payload. -/
def Payload.id : Payload → String
  | .organization org => org.name
  | .workspace ws => ws.id
  | .run r => r.id
  | .chunk c => toString c.id
  | .deleted _ name => name

/-- An announced change. -/
structure Event where
  /-- The kind of change. -/
  type : EventType
  /-- What changed. -/
  payload : Payload
  /-- Whether the event stays on its node. -/
  isLocal : Bool := false
  deriving DecidableEq, Repr

namespace Event

/-- The deletion of the thing with an identifier. -/
def deleted (type : EventType) (id : String) : Event :=
  { type, payload := .deleted type.relation id }

/-- A change of a run's status. -/
def runStatus (run : Run) : Event :=
  { type := .runStatusUpdate, payload := .run run }

/-- A change of a workspace. -/
def ofWorkspace (type : EventType) (ws : Workspace) : Event :=
  { type, payload := .workspace ws }

end Event

end Provision
