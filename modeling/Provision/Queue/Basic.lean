import Provision.Service

/-!
# The queue of a workspace

A queue admits the runs of one workspace one at a time, in the order it hears of them. The current
run holds the workspace's lock, or waits for it; the pending runs wait behind it. Speculative runs
pass by the queue and never take the lock.

A queue reacts to events only. What it knows of the workspace is a copy that may be out of date, and
what it does to the world goes through a `Backend`, each call of which may be refused. The queue
keeps what it had changed before a call was refused.

* `Queue.handle` reacts to an event, `Queue.retry` tries to admit the current run once more, and
  `Queue.forget` drops a run that no longer exists.
* `Queue.tracked` is the view of a queue: the current run, then those behind it.
-/

namespace Provision

/-- What a queue asks of the world, whose state is of type `σ`. -/
structure Backend (σ : Type) where
  /-- The run with an identifier. -/
  getRun : String → ExceptT Error (StateM σ) Run
  /-- The workspace with an identifier. -/
  getWorkspace : String → ExceptT Error (StateM σ) Workspace
  /-- Queue the plan of a pending run. -/
  enqueuePlan : String → ExceptT Error (StateM σ) Run
  lockWorkspace : String → Holder → ExceptT Error (StateM σ) Workspace
  /-- Unlock a workspace, which may be gone. -/
  unlockWorkspace : String → Holder → Bool → ExceptT Error (StateM σ) (Option Workspace)
  /-- Record the run that a workspace admitted last. -/
  setCurrentRun : String → String → ExceptT Error (StateM σ) Workspace

/-- The services as a backend. -/
def Backend.services : Backend Ledger where
  getRun := Service.getRun
  getWorkspace := Service.getWorkspace
  enqueuePlan := Service.enqueuePlan
  lockWorkspace := Service.lockWorkspace
  unlockWorkspace := Service.unlockWorkspace
  setCurrentRun := Service.setCurrentRun

/-- The queue of a workspace. -/
structure Queue where
  /-- The workspace as it was last heard of. -/
  workspace : Workspace
  /-- The run that is admitted, or next to be. -/
  current : Option String := none
  /-- The runs behind it, oldest first. -/
  pending : List String := []
  deriving DecidableEq, Repr

/-- A step of a queue in a world with state `σ`. -/
abbrev Queue.Step (σ α : Type) := ExceptT Error (StateM (Queue × σ)) α

namespace Queue

variable {σ : Type}

/-- The runs that the queue knows, the current one first. -/
def tracked (q : Queue) : List String :=
  q.current.toList ++ q.pending

/-- A call of the backend. -/
def call {α : Type} (x : ExceptT Error (StateM σ) α) : Step σ α :=
  fun s =>
    let r := x s.2
    (r.1, (s.1, r.2))

/-- The queue itself. -/
def self : Step σ Queue := do
  return (← get).1

/-- Change the queue. -/
def revise (f : Queue → Queue) : Step σ Unit :=
  modify fun s => (f s.1, s.2)

/-- Remember what the workspace looks like. -/
def see (ws : Workspace) : Step σ Unit :=
  revise fun q => { q with workspace := ws }

/-- The outcome of a step, be it a value or a refusal. -/
def attempt {α : Type} (x : Step σ α) : Step σ (Except Error α) :=
  fun s =>
    let r := x s
    (.ok r.1, r.2)

/-! ## Admission -/

/-- Enqueue the plan of the run that holds the lock, and record that it is the current one. -/
def launch (b : Backend σ) (run : String) : Step σ Unit := do
  let _ ← call (b.enqueuePlan run)
  let ws := (← self).workspace
  if ws.currentRun = some run then return
  see (← call (b.setCurrentRun ws.id run))

/-- Try to admit a run: lock the workspace for it and enqueue its plan. Nothing happens if the run is
past pending, or if somebody else holds the lock; the run then waits for the lock to open. -/
def schedule (b : Backend σ) (run : String) : Step σ Unit := do
  let stored ← call (b.getRun run)
  if stored.status ≠ .pending then return
  let ws := (← self).workspace
  if ws.isUserLocked then return
  match ← attempt (call (b.lockWorkspace ws.id (.run run))) with
  | .ok ws =>
    see ws
    launch b run
  | .error (.workspaceAlreadyLocked ..) => return
  | .error e => throw e

/-- Make the oldest pending run the current one, or have none. -/
def promote (b : Backend σ) : Step σ Unit := do
  match (← self).pending with
  | [] => revise fun q => { q with current := none }
  | next :: rest =>
    revise fun q => { q with current := some next, pending := rest }
    schedule b next

/-- Give back the lock of a run that has ended. That it does not hold the lock is no reason to
stop. -/
def unlock (b : Backend σ) (run : String) : Step σ Unit := do
  let ws := (← self).workspace
  match ← attempt (call (b.unlockWorkspace ws.id (.run run) false)) with
  | .ok (some ws) => see ws
  | .ok none => return
  | .error e => if e.isPrecondition then return else throw e

/-! ## Events -/

/-- Enqueue the plan of a speculative run. That it is enqueued already is no reason to stop. -/
def launchSpeculative (b : Backend σ) (run : String) : Step σ Unit := do
  match ← attempt (call (b.enqueuePlan run)) with
  | .ok _ => return
  | .error (.invalidTransition ..) => return
  | .error e => throw e

/-- React to a run while another one is current: it joins the end of the queue, or leaves it. -/
def enlist (run : Run) : Step σ Unit :=
  revise fun q =>
    if q.pending.contains run.id then
      if run.isDone then { q with pending := q.pending.erase run.id } else q
    else if run.isDone then q
    else { q with pending := q.pending ++ [run.id] }

/-- React to a run of the workspace. -/
def handleRun (b : Backend σ) (run : Run) : Step σ Unit := do
  if run.speculative then
    if run.status = .pending then launchSpeculative b run.id
  else
    match (← self).current with
    | some current =>
      if current = run.id then
        if run.isDone then
          unlock b run.id
          promote b
      else enlist run
    | none =>
      if run.isDone then return
      revise fun q => { q with current := some run.id }
      schedule b run.id

/-- Try to admit the current run once more, in case the news of the open lock was missed. -/
def retry (b : Backend σ) : Step σ Unit := do
  match (← self).current with
  | some current => schedule b current
  | none => return

/-- Drop a run that no longer exists. -/
def forget (b : Backend σ) (run : String) : Step σ Unit := do
  if (← self).current = some run then
    unlock b run
    promote b
  else revise fun q => { q with pending := q.pending.filter fun id => id != run }

/-- React to an event; those about other workspaces do not matter. -/
def handle (b : Backend σ) (e : Event) : Step σ Unit := do
  let q ← self
  match e.payload with
  | .workspace ws =>
    if ws.id = q.workspace.id then
      see ws
      if e.type = .workspaceUnlocked then retry b
  | .run run => if run.workspace = q.workspace.id then handleRun b run
  | _ => return

end Queue

end Provision
