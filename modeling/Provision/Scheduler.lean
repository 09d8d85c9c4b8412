import Provision.Queue.Basic

/-!
# The scheduler

The scheduler keeps one queue for each workspace, grouped by organization, in a roster. It feeds them
the events that the broker delivers, and brings them in line with the store from time to time, since
events may be missed.

* `Scheduler.dispatch` hands an event to the queue it concerns.
* `Scheduler.seed` rebuilds the roster from the store. It refuses a store in which a workspace has
  two active runs, since then no schedule is right.
-/

namespace Provision

/-- The queues of an organization, by workspace. -/
structure Bucket where
  organization : String
  /-- The queues, with the identifiers of their workspaces. -/
  queues : List (String × Queue) := []
  deriving DecidableEq, Repr

/-- The queues of all organizations. -/
abbrev Roster := List Bucket

namespace Bucket

/-- The queue of a workspace. -/
def queue? (b : Bucket) (workspace : String) : Option Queue :=
  (b.queues.find? fun q => q.1 == workspace).map (·.2)

/-- The bucket with a queue for a workspace, put in the place of the one it has. -/
def put (b : Bucket) (workspace : String) (q : Queue) : Bucket :=
  if b.queues.any fun e => e.1 == workspace then
    { b with queues := b.queues.map fun e => if e.1 = workspace then (workspace, q) else e }
  else { b with queues := b.queues ++ [(workspace, q)] }

/-- The bucket without the queues of other workspaces. -/
def keep (b : Bucket) (workspaces : List String) : Bucket :=
  { b with queues := b.queues.filter fun e => workspaces.contains e.1 }

/-- The bucket without the queue of a workspace. -/
def drop (b : Bucket) (workspace : String) : Bucket :=
  { b with queues := b.queues.filter fun e => e.1 != workspace }

end Bucket

namespace Roster

/-- The roster with a bucket for an organization. -/
def ensure (r : Roster) (organization : String) : Roster :=
  if r.any fun b => b.organization == organization then r else r ++ [⟨organization, []⟩]

/-- The queue of a workspace in an organization. -/
def queue? (r : Roster) (organization workspace : String) : Option Queue :=
  (r.find? fun b => b.organization == organization).bind (·.queue? workspace)

/-- The queue of a workspace in whatever organization. -/
def find (r : Roster) (workspace : String) : Option Queue :=
  r.findSome? (·.queue? workspace)

/-- The roster after a change of one organization's bucket. -/
def revise (r : Roster) (organization : String) (f : Bucket → Bucket) : Roster :=
  r.map fun b => if b.organization = organization then f b else b

/-- The names of the organizations, sorted. -/
def organizations (r : Roster) : List String :=
  (r.map (·.organization)).mergeSort fun a b => decide (a ≤ b)

end Roster

namespace Scheduler

/-- The lease that the active scheduler of a cluster holds. -/
def lease : Int :=
  5577006791947779410

/-- The name of the scheduler's subscription. -/
def subscriber : String :=
  "scheduler"

/-- The statuses of runs that are not done. -/
def unfinished : List RunStatus :=
  [.pending, .planQueued, .planning, .planned, .applyQueued, .applying]

/-- A step of the scheduler on its roster and the ledger. -/
abbrev Step (α : Type) := ExceptT Error (StateM (Roster × Ledger)) α

/-- The roster. -/
def roster : Step Roster := do
  return (← get).1

/-- Change the roster. -/
def revise (f : Roster → Roster) : Step Unit :=
  modify fun s => (f s.1, s.2)

/-- A call of the services. -/
def call {α : Type} (x : Service α) : Step α :=
  fun s =>
    let r := x s.2
    (r.1, (s.1, r.2))

/-- The outcome of a step, be it a value or a refusal. -/
def attempt {α : Type} (x : Step α) : Step (Except Error α) :=
  fun s =>
    let r := x s
    (.ok r.1, r.2)

/-- A step of one queue, if there is such a queue. -/
def inQueue (organization workspace : String) (x : Queue.Step Ledger Unit) : Step Unit :=
  fun s =>
    match s.1.queue? organization workspace with
    | none => (.ok (), s)
    | some q =>
      let r := x (q, s.2)
      (r.1, (s.1.revise organization (·.put workspace r.2.1), r.2.2))

/-- See that there is a queue for a workspace. -/
def ensureQueue (ws : Workspace) : Step Unit :=
  revise fun r =>
    let r := r.ensure ws.organization
    if (r.queue? ws.organization ws.id).isSome then r
    else r.revise ws.organization (·.put ws.id { workspace := ws })

/-! ## Events -/

/-- Hand the event of a run to the queue of its workspace, which is made first if need be. A run whose
workspace is gone does not matter. -/
def dispatchRun (e : Event) (run : Run) : Step Unit := do
  revise (·.ensure run.organization)
  if ((← roster).queue? run.organization run.workspace).isNone then
    match ← attempt (call (Service.getWorkspace run.workspace)) with
    | .ok ws => revise (·.revise run.organization (·.put ws.id { workspace := ws }))
    | .error e => if e.isNotFound then return else throw e
  inQueue run.organization run.workspace (Queue.handle Backend.services e)

/-- Hand an event to the queue it concerns. -/
def dispatch (e : Event) : Step Unit :=
  match e.type, e.payload with
  | .organizationCreated, .organization org => revise (·.ensure org.name)
  | .organizationDeleted, .deleted _ name =>
    revise (·.filter fun b => b.organization != name)
  | .workspaceDeleted, .deleted _ id => revise (·.map (·.drop id))
  | _, .workspace ws => do
    ensureQueue ws
    inQueue ws.organization ws.id (Queue.handle Backend.services e)
  | _, .run run => dispatchRun e run
  | _, _ => return

/-! ## Seeding -/

/-- The refusal of a workspace with several active runs. -/
def violation (workspace : String) (active : List Run) : Error :=
  .consistencyViolation ("workspace " ++ workspace ++ " has " ++ toString active.length ++
    " active runs: " ++ ", ".intercalate (active.map (·.id)))

/-- Open the lock of a workspace that is still held by a run which is done or gone. A failure to do so
does not matter. -/
def releaseStaleLock (ws : Workspace) (active : Option Run) : Step Unit := do
  match ws.lock with
  | some (.run holder) =>
    if active.any fun r => r.id == holder then return
    let isStale := match ← attempt (call (Service.getRun holder)) with
      | .ok run => run.isDone
      | .error e => e.isNotFound
    if isStale then
      let _ ← attempt (call (Service.unlockWorkspace ws.id (.run holder) false))
  | _ => return

/-- Bring a queue up to date with a run it tracks, which may be done or gone. -/
def refresh (run : String) : Queue.Step Ledger Unit := do
  match ← Queue.attempt (Queue.call (Service.getRun run)) with
  | .ok run => Queue.handle Backend.services (Event.runStatus run)
  | .error e =>
    if e.isNotFound then Queue.forget Backend.services run else throw e

/-- Feed a queue what is stored: the workspace, the runs it tracks, and the runs that are not done, the
active one first. The current run is tried once more at the end, in case the news of the open lock
was missed. -/
def feed (ws : Workspace) (runs : List Run) : Queue.Step Ledger Unit := do
  Queue.handle Backend.services
    { type := .workspaceUpdated, payload := .workspace ws, isLocal := true }
  (← Queue.self).tracked.forM refresh
  ((runs.filter (·.isActive)) ++ runs.filter fun r => !r.isActive).forM fun r =>
    Queue.handle Backend.services (Event.runStatus r)
  Queue.retry Backend.services

/-- Bring the queue of a workspace in line with the store. -/
def seedWorkspace (ws : Workspace) : Step Unit := do
  let runs ← call (Service.listRuns { workspace := some ws.id, statuses := some unfinished })
  let active := runs.filter (·.isActive)
  if 1 < active.length then throw (violation ws.id active)
  releaseStaleLock ws active.head?
  ensureQueue ws
  let _ ← attempt (inQueue ws.organization ws.id (feed ws runs))

/-- Bring the queues of an organization in line with the store. -/
def seedOrganization (org : Organization) : Step Unit := do
  let workspaces ← call (Service.listWorkspaces org.name)
  revise fun r => (r.ensure org.name).revise org.name (·.keep (workspaces.map (·.id)))
  workspaces.forM seedWorkspace

/-- Bring all queues in line with the store. -/
def seed : Step Unit := do
  let organizations ← call Service.listOrganizations
  revise (·.filter fun b => (organizations.map (·.name)).contains b.organization)
  organizations.forM seedOrganization

end Scheduler

end Provision
