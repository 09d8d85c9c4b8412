import Provision.Agent.Job

/-!
# Agents

An agent executes queued phases. It claims a phase when it hears that one is queued, as far as it has a
free slot, and it looks for queued phases in the store when it begins to follow events, and when a job
has ended while phases were skipped for lack of a slot. Of several agents that claim a phase one
succeeds.

* `Agent.claim` claims the queued phase of a run.
* `Agent.rescan`, `Agent.handle` and `Agent.join` react to the store, to an event and to the end of a
  job.
-/

namespace Provision

/-- An agent. -/
structure Agent where
  /-- The name recorded on claimed phases. -/
  id : String
  /-- How many phases may be executed at once, as configured; at least one may. -/
  concurrency : Nat := 5
  /-- The jobs that have not been joined, oldest first. -/
  jobs : List Job := []
  /-- How many jobs there have been. -/
  claims : Nat := 0
  /-- Whether a queued phase was left for lack of a slot. -/
  hasSkipped : Bool := false
  deriving Repr

namespace Agent

/-- How many slots the agent has. -/
def slots (a : Agent) : Nat :=
  max a.concurrency 1

/-- How many slots are taken. -/
def busy (a : Agent) : Nat :=
  a.jobs.countP fun j => !j.hasEnded

/-- How many jobs a cancel still reaches. -/
def inFlight (a : Agent) : Nat :=
  a.jobs.countP (·.isInFlight)

/-- Whether a phase of a run is in flight here. -/
def isExecuting (a : Agent) (run : String) : Bool :=
  a.jobs.any fun j => j.isInFlight && j.spec.run == run

/-- The job with a number. -/
def job? (a : Agent) (number : Nat) : Option Job :=
  a.jobs.find? fun j => j.number == number

/-- The agent with one of its jobs replaced by a later state of it. -/
def putJob (a : Agent) (job : Job) : Agent :=
  { a with jobs := a.jobs.map fun j => if j.number = job.number then job else j }

/-- Pass a cancel on to the job that executes a run, if there is one. -/
def signal (a : Agent) (run : String) (force : Bool) : Agent :=
  { a with
    jobs := a.jobs.map fun j =>
      if j.isInFlight ∧ j.spec.run = run then j.cancel force else j }

/-- Ask all jobs in flight to stop. -/
def cancelAll (a : Agent) : Agent :=
  { a with jobs := a.jobs.map fun j => if j.isInFlight then j.cancel false else j }

/-! ## Claims -/

/-- A step of an agent that changes the ledger. -/
abbrev Step (α : Type) := StateM (Agent × Ledger) α

/-- Claim the queued phase of a run and make a job of it. The answer is false exactly if there was no
free slot; a phase that is not queued any more, or already claimed, does not matter. -/
def claim (run : Run) : Step Bool :=
  fun s =>
    match run.status.queuedPhase? with
    | none => (true, s)
    | some kind =>
      if s.1.isExecuting run.id then (true, s)
      else if s.1.slots ≤ s.1.busy then (false, s)
      else
        match Service.startPhase run.id kind s.1.id s.2 with
        | (.ok claimed, ledger) =>
          (true, ({ s.1 with
            jobs := s.1.jobs ++ [Job.ofRun s.1.claims claimed kind]
            claims := s.1.claims + 1 }, ledger))
        | (.error _, ledger) => (true, (s.1, ledger))

/-- Claim the queued phases of several runs. The answer is whether one was skipped. -/
def claimAll : List Run → Step Bool
  | [] => return false
  | run :: rest => do
    let claimed ← claim run
    let skipped ← claimAll rest
    return !claimed || skipped

/-- Claim every queued phase of the store, and remember whether one was skipped. -/
def rescan : Step Unit := do
  let queued := (← get).2.store.listRuns { statuses := some [.planQueued, .applyQueued] }
  let skipped ← claimAll queued
  modify fun s => ({ s.1 with hasSkipped := skipped }, s.2)

/-- React to an event: claim the phase that it reports as queued, or pass on the cancel that it
reports. -/
def handle (e : Event) : Step Unit := do
  match e.type, e.payload with
  | .runStatusUpdate, .run run =>
    match run.status with
    | .planQueued | .applyQueued =>
      let claimed ← claim run
      modify fun s => ({ s.1 with hasSkipped := s.1.hasSkipped || !claimed }, s.2)
    | .canceled => modify fun s => (s.1.signal run.id false, s.2)
    | .forceCanceled => modify fun s => (s.1.signal run.id true, s.2)
    | _ => return
  | _, _ => return

/-- Put away a job that has ended. -/
def remove (a : Agent) (number : Nat) : Agent :=
  { a with jobs := a.jobs.filter fun j => j.number != number }

/-- Put away a job that has ended, and look again for queued phases if one was skipped. -/
def join (number : Nat) : Step Unit := do
  modify fun s => (s.1.remove number, s.2)
  if (← get).1.hasSkipped then rescan

end Agent

end Provision
