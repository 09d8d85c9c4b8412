import Provision.Error

/-!
# Statuses of runs and phases

A run has a plan phase and an apply phase. It moves through its statuses along the edges

* pending → plan queued → planning → planned → apply queued → applying → applied,
* planning → planned and finished, for a plan that nothing follows,
* planning, applying → errored,
* pending, planned → discarded,
* every status that is not done → canceled → force canceled.

`RunStatus.leadsTo` is this table, and every status change of a run is one of its edges.
-/

namespace Provision

/-- The status of a run. -/
inductive RunStatus
  /-- Created, and not yet admitted by the queue of its workspace. -/
  | pending
  /-- The plan waits for an agent. -/
  | planQueued
  /-- An agent executes the plan. -/
  | planning
  /-- The plan has changes, which await confirmation. -/
  | planned
  /-- The plan is done and nothing follows it. -/
  | plannedAndFinished
  /-- The apply waits for an agent. -/
  | applyQueued
  /-- An agent executes the apply. -/
  | applying
  /-- The changes are applied. -/
  | applied
  /-- A phase failed. -/
  | errored
  /-- Canceled by a user. -/
  | canceled
  /-- Canceled, and then terminated by force. -/
  | forceCanceled
  /-- Given up by a user before it was applied. -/
  | discarded
  deriving DecidableEq, Repr, Inhabited

/-- The two phases of a run. -/
inductive PhaseKind
  /-- Find out what would change. -/
  | plan
  /-- Make the changes. -/
  | apply
  deriving DecidableEq, Repr, Inhabited

/-- The status of a phase. -/
inductive PhaseStatus
  /-- Not queued yet. -/
  | pending
  /-- Waiting for an agent. -/
  | queued
  /-- Claimed by an agent and executing. -/
  | running
  /-- Ended with success. -/
  | finished
  /-- Canceled while it waited or executed. -/
  | canceled
  /-- Ended with a failure. -/
  | errored
  /-- Never to be executed. -/
  | unreachable
  deriving DecidableEq, Repr, Inhabited

namespace PhaseKind

/-- The name of a phase. -/
def name : PhaseKind → String
  | .plan => "plan"
  | .apply => "apply"

/-- The phase with a name. -/
def ofName? (s : String) : Option PhaseKind :=
  [plan, apply].find? fun k => k.name == s

/-- The phase with a name that a caller gives. -/
def parse (s : String) : Except Error PhaseKind :=
  match ofName? s with
  | some k => .ok k
  | none => .error (.validation "phase" ("unknown phase " ++ Error.quoted s))

end PhaseKind

namespace RunStatus

/-- Every status, in the order of a run's life. -/
def all : List RunStatus :=
  [.pending, .planQueued, .planning, .planned, .plannedAndFinished, .applyQueued, .applying,
    .applied, .errored, .canceled, .forceCanceled, .discarded]

/-- The name of a status. -/
def name : RunStatus → String
  | .pending => "pending"
  | .planQueued => "plan_queued"
  | .planning => "planning"
  | .planned => "planned"
  | .plannedAndFinished => "planned_and_finished"
  | .applyQueued => "apply_queued"
  | .applying => "applying"
  | .applied => "applied"
  | .errored => "errored"
  | .canceled => "canceled"
  | .forceCanceled => "force_canceled"
  | .discarded => "discarded"

/-- The status with a name. -/
def ofName? (s : String) : Option RunStatus :=
  all.find? fun status => status.name == s

/-- The status with a name that a caller gives. -/
def parse (s : String) : Except Error RunStatus :=
  match ofName? s with
  | some status => .ok status
  | none => .error (.validation "status" ("unknown run status " ++ Error.quoted s))

/-- Whether the run has come to its end. -/
def isDone : RunStatus → Bool
  | .applied | .plannedAndFinished | .errored | .canceled | .forceCanceled | .discarded => true
  | _ => false

/-- Whether the run has begun and not come to its end. -/
def isActive : RunStatus → Bool
  | .planQueued | .planning | .planned | .applyQueued | .applying => true
  | _ => false

/-- The phase that waits for an agent. -/
def queuedPhase? : RunStatus → Option PhaseKind
  | .planQueued => some .plan
  | .applyQueued => some .apply
  | _ => none

/-- Whether an agent executes a phase. -/
def isExecuting : RunStatus → Bool
  | .planning | .applying => true
  | _ => false

/-- Whether the second status may directly follow the first. -/
def leadsTo : RunStatus → RunStatus → Bool
  | .pending, .planQueued | .pending, .canceled | .pending, .discarded => true
  | .planQueued, .planning | .planQueued, .canceled => true
  | .planning, .planned | .planning, .plannedAndFinished | .planning, .errored
  | .planning, .canceled => true
  | .planned, .applyQueued | .planned, .canceled | .planned, .discarded => true
  | .applyQueued, .applying | .applyQueued, .canceled => true
  | .applying, .applied | .applying, .errored | .applying, .canceled => true
  | .canceled, .forceCanceled => true
  | _, _ => false

end RunStatus

namespace PhaseStatus

/-- Every status, in the order of a phase's life. -/
def all : List PhaseStatus :=
  [.pending, .queued, .running, .finished, .canceled, .errored, .unreachable]

/-- The name of a status. -/
def name : PhaseStatus → String
  | .pending => "pending"
  | .queued => "queued"
  | .running => "running"
  | .finished => "finished"
  | .canceled => "canceled"
  | .errored => "errored"
  | .unreachable => "unreachable"

/-- The status with a name. -/
def ofName? (s : String) : Option PhaseStatus :=
  all.find? fun status => status.name == s

/-- Whether the phase has come to its end. -/
def isDone : PhaseStatus → Bool
  | .finished | .canceled | .errored | .unreachable => true
  | _ => false

end PhaseStatus

end Provision
