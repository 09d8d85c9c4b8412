import Provision.Event

/-!
# The store

Organizations, workspaces, runs and log chunks, each in the order of creation. A change either
succeeds and returns the store after it, or is refused.

Workspaces and runs are changed by functions that may refuse: the stored record is read, changed and
written in one step (`updateWorkspace`, `updateRun`). What is deleted takes with it everything below
it. The numbers of log chunks are never used twice.
-/

namespace Provision

/-- Everything that is stored. -/
structure Store where
  organizations : List Organization := []
  workspaces : List Workspace := []
  runs : List Run := []
  /-- The log chunks. -/
  chunks : List StoredChunk := []
  /-- The number of the chunk that was stored last. -/
  lastChunk : Nat := 0
  deriving DecidableEq, Repr

/-- Which runs to list; what is not given does not matter. -/
structure RunFilter where
  /-- Runs of this organization. -/
  organization : Option String := none
  /-- Runs of this workspace. -/
  workspace : Option String := none
  /-- Runs in one of these statuses. -/
  statuses : Option (List RunStatus) := none
  /-- Speculative runs, or runs that are not. -/
  speculative : Option Bool := none

/-- Whether a run passes the filter. -/
def RunFilter.accepts (f : RunFilter) (r : Run) : Bool :=
  f.organization.all (· == r.organization) && f.workspace.all (· == r.workspace) &&
    f.statuses.all (·.contains r.status) && f.speculative.all (· == r.speculative)

namespace Store

/-- The store that holds nothing. -/
def empty : Store :=
  {}

/-! ## Reading -/

/-- The organization with a name. -/
def organization? (s : Store) (name : String) : Option Organization :=
  s.organizations.find? fun o => o.name == name

/-- The workspace with an identifier. -/
def workspace? (s : Store) (id : String) : Option Workspace :=
  s.workspaces.find? fun w => w.id == id

/-- The run with an identifier. -/
def run? (s : Store) (id : String) : Option Run :=
  s.runs.find? fun r => r.id == id

/-- The log chunk with a number. -/
def chunk? (s : Store) (id : Int) : Option StoredChunk :=
  s.chunks.find? fun c => c.id == id

/-- The workspaces of an organization. -/
def workspacesOf (s : Store) (organization : String) : List Workspace :=
  s.workspaces.filter fun w => w.organization == organization

/-- The runs that pass a filter. -/
def listRuns (s : Store) (f : RunFilter) : List Run :=
  s.runs.filter f.accepts

/-- The log chunks of a phase, by offset. -/
def chunksOf (s : Store) (run : String) (phase : PhaseKind) : List StoredChunk :=
  (s.chunks.filter fun c => c.chunk.run == run && c.chunk.phase == phase).mergeSort fun a b =>
    decide (a.chunk.offset ≤ b.chunk.offset)

/-! ## Changing -/

/-- The store without the runs that do not satisfy `keep`, and without their chunks. -/
def keepRuns (s : Store) (keep : Run → Bool) : Store :=
  let removed := (s.runs.filter fun r => !keep r).map (·.id)
  { s with
    runs := s.runs.filter keep
    chunks := s.chunks.filter fun c => !removed.contains c.chunk.run }

/-- Add an organization. -/
def createOrganization (s : Store) (org : Organization) : Except Error Store :=
  if s.organizations.any fun o => o.name == org.name then
    .error (.alreadyExists "organization" org.name)
  else .ok { s with organizations := s.organizations ++ [org] }

/-- Remove an organization with everything below it. -/
def deleteOrganization (s : Store) (name : String) : Except Error Store :=
  if s.organizations.any fun o => o.name == name then
    let s := { s with
      organizations := s.organizations.filter fun o => o.name != name
      workspaces := s.workspaces.filter fun w => w.organization != name }
    .ok (s.keepRuns fun r => r.organization != name)
  else .error (.organizationNotFound name)

/-- Add a workspace. -/
def createWorkspace (s : Store) (ws : Workspace) : Except Error Store :=
  if !s.organizations.any fun o => o.name == ws.organization then
    .error (.organizationNotFound ws.organization)
  else if s.workspaces.any fun w =>
      w.id == ws.id || (w.organization == ws.organization && w.name == ws.name) then
    .error (.alreadyExists "workspace" ws.id)
  else .ok { s with workspaces := s.workspaces ++ [ws] }

/-- Change a workspace, and return it as it is stored then. -/
def updateWorkspace (s : Store) (id : String) (change : Workspace → Except Error Workspace) :
    Except Error (Workspace × Store) :=
  match s.workspace? id with
  | none => .error (.workspaceNotFound id)
  | some old =>
    match change old with
    | .error e => .error e
    | .ok new =>
      .ok (new, { s with workspaces := s.workspaces.map fun w => if w.id = id then new else w })

/-- Remove a workspace with its runs. -/
def deleteWorkspace (s : Store) (id : String) : Except Error Store :=
  if s.workspaces.any fun w => w.id == id then
    let s := { s with workspaces := s.workspaces.filter fun w => w.id != id }
    .ok (s.keepRuns fun r => r.workspace != id)
  else .error (.workspaceNotFound id)

/-- Add a run. -/
def createRun (s : Store) (run : Run) : Except Error Store :=
  if !s.workspaces.any fun w => w.id == run.workspace then
    .error (.workspaceNotFound run.workspace)
  else if s.runs.any fun r => r.id == run.id then .error (.alreadyExists "run" run.id)
  else .ok { s with runs := s.runs ++ [run] }

/-- Change a run, and return it as it is stored then. -/
def updateRun (s : Store) (id : String) (change : Run → Except Error Run) :
    Except Error (Run × Store) :=
  match s.run? id with
  | none => .error (.runNotFound id)
  | some old =>
    match change old with
    | .error e => .error e
    | .ok new => .ok (new, { s with runs := s.runs.map fun r => if r.id = id then new else r })

/-- Remove a run with its log. -/
def deleteRun (s : Store) (id : String) : Except Error Store :=
  if s.runs.any fun r => r.id == id then .ok (s.keepRuns fun r => r.id != id)
  else .error (.runNotFound id)

/-- The place of a chunk in words: its run, phase and offset. -/
def chunkPlace (c : Chunk) : String :=
  c.run ++ "/" ++ c.phase.name ++ "/" ++ toString c.offset

/-- Add a log chunk at a place that has none, and return it with its number. -/
def putChunk (s : Store) (chunk : Chunk) : Except Error (StoredChunk × Store) :=
  if !s.runs.any fun r => r.id == chunk.run then .error (.runNotFound chunk.run)
  else if s.chunks.any fun c =>
      c.chunk.run == chunk.run && c.chunk.phase == chunk.phase &&
        c.chunk.offset == chunk.offset then
    .error (.alreadyExists "chunk" (chunkPlace chunk))
  else
    let stored : StoredChunk := ⟨(s.lastChunk + 1 : Nat), chunk⟩
    .ok (stored, { s with chunks := s.chunks ++ [stored], lastChunk := s.lastChunk + 1 })

end Store

end Provision
