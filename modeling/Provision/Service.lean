import Provision.Store

/-!
# Services

What users and agents can ask for. An operation works on a `Ledger`: the store, the clock, the supply
of numbers for new identifiers, and the events announced so far. It either succeeds with a value and
announces what it changed, or is refused; a refusal changes no record and announces nothing, though it
may use up a number.

The operations on runs go through `Service.transition`, which announces the new status.
-/

namespace Provision

/-- What the services work on. -/
structure Ledger where
  store : Store := {}
  /-- The reading of the clock. -/
  clock : Instant := ⟨0, 0⟩
  /-- The next number for an identifier. -/
  supply : Nat := 0
  /-- The events announced, oldest first. -/
  announced : List Event := []
  deriving DecidableEq, Repr

/-- An operation on a ledger that may be refused. -/
abbrev Service (α : Type) := ExceptT Error (StateM Ledger) α

/-- What is asked for when a run is created in a workspace. -/
structure RunRequest where
  workspace : String := ""
  /-- The configuration version to execute. -/
  configuration : String := ""
  /-- Plan only, outside the queue and without the workspace's lock. -/
  speculative : Bool := false
  /-- Confirm a plan with changes automatically; the workspace decides if not given. -/
  autoApply : Option Bool := none
  /-- Destroy everything instead of converging. -/
  isDestroy : Bool := false
  /-- What the user says about it. -/
  message : Option String := none
  deriving DecidableEq, Repr

namespace Service

/-- Announce an event. -/
def announce (e : Event) : Service Unit :=
  modify fun l => { l with announced := l.announced ++ [e] }

/-- The store. -/
def store : Service Store := do
  return (← get).store

/-- The reading of the clock. -/
def now : Service Instant := do
  return (← get).clock

/-- A number that nobody else is given. -/
def number : Service Nat :=
  modifyGet fun l => (l.supply, { l with supply := l.supply + 1 })

/-- Change the store, unless the change is refused. -/
def commit {α : Type} (change : Store → Except Error (α × Store)) : Service α := do
  match change (← store) with
  | .ok (a, s) =>
    modify fun l => { l with store := s }
    return a
  | .error e => throw e

/-- Change the store by a change that gives no value. -/
def commit_ (change : Store → Except Error Store) : Service Unit :=
  commit fun s => (change s).map ((), ·)

/-- A value that is there, or a refusal. -/
def require {α : Type} (value : Option α) (e : Error) : Service α :=
  match value with
  | some a => return a
  | none => throw e

/-! ## Organizations -/

/-- Create an organization. -/
def createOrganization (name : String) : Service Organization := do
  let org ← match Organization.new name (← now) with
    | .ok org => pure org
    | .error e => throw e
  commit_ (·.createOrganization org)
  announce { type := .organizationCreated, payload := .organization org }
  return org

/-- The organization with a name. -/
def getOrganization (name : String) : Service Organization := do
  require ((← store).organization? name) (.organizationNotFound name)

/-- All organizations. -/
def listOrganizations : Service (List Organization) := do
  return (← store).organizations

/-- Delete an organization with everything below it. -/
def deleteOrganization (name : String) : Service Unit := do
  commit_ (·.deleteOrganization name)
  announce (Event.deleted .organizationDeleted name)

/-! ## Workspaces -/

/-- Create a workspace in an organization. -/
def createWorkspace (opts : NewWorkspace) : Service Workspace := do
  if opts.name.isEmpty then throw (.validation "name" "must not be empty")
  if ((← store).organization? opts.organization).isNone then
    throw (.organizationNotFound opts.organization)
  let ws := Workspace.new (← number) opts (← now)
  commit_ (·.createWorkspace ws)
  announce (Event.ofWorkspace .workspaceCreated ws)
  return ws

/-- The workspace with an identifier. -/
def getWorkspace (id : String) : Service Workspace := do
  require ((← store).workspace? id) (.workspaceNotFound id)

/-- The workspaces of an organization. -/
def listWorkspaces (organization : String) : Service (List Workspace) := do
  return (← store).workspacesOf organization

/-- Change a workspace and announce it. -/
def reviseWorkspace (type : EventType) (id : String)
    (change : Workspace → Except Error Workspace) : Service Workspace := do
  let ws ← commit (·.updateWorkspace id change)
  announce (Event.ofWorkspace type ws)
  return ws

/-- Lock a workspace. -/
def lockWorkspace (id : String) (holder : Holder) : Service Workspace :=
  reviseWorkspace .workspaceLocked id (·.acquire holder)

/-- Unlock a workspace; a workspace that is gone needs no unlocking. -/
def unlockWorkspace (id : String) (requester : Holder) (force : Bool) :
    Service (Option Workspace) := do
  if ((← store).workspace? id).isNone then return none
  return some (← reviseWorkspace .workspaceUnlocked id (·.release requester force))

/-- Record the run that a workspace admitted last. -/
def setCurrentRun (id run : String) : Service Workspace :=
  reviseWorkspace .workspaceUpdated id fun w => .ok { w with currentRun := some run }

/-- Set whether the runs of a workspace confirm their plans automatically. -/
def setAutoApply (id : String) (value : Bool) : Service Workspace :=
  reviseWorkspace .workspaceUpdated id fun w => .ok { w with autoApply := value }

/-- Delete a workspace with its runs. -/
def deleteWorkspace (id : String) : Service Unit := do
  commit_ (·.deleteWorkspace id)
  announce (Event.deleted .workspaceDeleted id)

/-! ## Runs -/

/-- Create a run in a workspace. -/
def createRun (request : RunRequest) : Service Run := do
  let ws ← getWorkspace request.workspace
  let run := Run.new (← number)
    { organization := ws.organization
      workspace := ws.id
      configuration := request.configuration
      speculative := request.speculative
      autoApply := request.autoApply.getD ws.autoApply
      isDestroy := request.isDestroy
      message := request.message } (← now)
  commit_ (·.createRun run)
  announce { type := .runCreated, payload := .run run }
  return run

/-- The run with an identifier. -/
def getRun (id : String) : Service Run := do
  require ((← store).run? id) (.runNotFound id)

/-- The runs that pass a filter. -/
def listRuns (f : RunFilter) : Service (List Run) := do
  return (← store).listRuns f

/-- Change a run and announce its status. -/
def transition (id : String) (change : Run → Except Error Run) : Service Run := do
  let run ← commit (·.updateRun id change)
  announce (Event.runStatus run)
  return run

/-- Queue the plan of a pending run. -/
def enqueuePlan (id : String) : Service Run := do
  let t ← now
  transition id (·.enqueuePlan t)

/-- Confirm a planned run, which queues its apply. -/
def confirm (id : String) : Service Run := do
  let t ← now
  transition id (·.enqueueApply t)

/-- Claim a queued phase for an agent. -/
def startPhase (id : String) (kind : PhaseKind) (agent : String) : Service Run := do
  let t ← now
  transition id (·.start kind agent t)

/-- Record how a phase ended. -/
def finishPhase (id : String) (kind : PhaseKind) (result : PhaseResult) : Service Run := do
  let t ← now
  transition id (·.finish kind result t t)

/-- Cancel a run. The flag tells whether a phase was executing. -/
def cancel (id : String) : Service (Run × Bool) := do
  let t ← now
  let isExecuting := ((← store).run? id).any (·.status.isExecuting)
  let run ← transition id fun r => (r.cancel t).map (·.1)
  return (run, isExecuting)

/-- Terminate a canceled run by force. -/
def forceCancel (id : String) : Service Run := do
  let t ← now
  transition id (·.forceCancelAt t)

/-- Give up a run that is pending or awaits confirmation. -/
def discard (id : String) : Service Run := do
  let t ← now
  transition id (·.discard t)

/-- Remove a run that was found done. -/
def removeRun (id : String) : Service Unit := do
  commit_ (·.deleteRun id)
  announce (Event.deleted .runDeleted id)

/-- Delete a run that is done. -/
def deleteRun (id : String) : Service Unit := do
  let run ← getRun id
  if !run.isDone then throw (run.refusal "delete")
  removeRun id

/-! ## Logs -/

/-- Store a piece of a phase's output. -/
def putChunk (chunk : Chunk) : Service StoredChunk := do
  let stored ← commit (·.putChunk chunk)
  announce { type := .chunkCreated, payload := .chunk stored }
  return stored

/-- The log chunk with a number. -/
def getChunk (id : Int) : Service StoredChunk := do
  require ((← store).chunk? id) (.chunkNotFound id)

/-- The output of a phase as far as it is stored, without the marks. -/
def getLog (run : String) (kind : PhaseKind) : Service Text.Bytes := do
  return Log.assemble (((← store).chunksOf run kind).map (·.chunk))

end Service

end Provision
