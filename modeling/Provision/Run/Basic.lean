import Provision.Identifier
import Provision.Run.Phase

/-!
# Runs

A run takes one configuration version through plan and apply in a workspace. Its actions are total
functions: each looks at the status, and either refuses or returns the run after the action. A
refused action returns no run, so it changes nothing. Every action takes the reading of the clock;
`finish` takes a second one, since an automatic confirmation follows the plan's end.

* `enqueuePlan`, `start`, `finish`, `enqueueApply` carry a run forward.
* `cancel`, `forceCancelAt`, `discard` end it.
* `Action` and `Run.perform` gather them.
-/

namespace Provision

/-- What is asked for when a run is created. -/
structure NewRun where
  /-- The organization of the workspace. -/
  organization : String := ""
  workspace : String := ""
  /-- The configuration version to execute. -/
  configuration : String := ""
  /-- Plan only, outside the queue and without the workspace's lock. -/
  speculative : Bool := false
  /-- Confirm a plan with changes automatically. -/
  autoApply : Bool := false
  /-- Destroy everything instead of converging. -/
  isDestroy : Bool := false
  /-- What the user says about it. -/
  message : Option String := none
  deriving DecidableEq, Repr

/-- How a phase ended, as its agent reports it. -/
structure PhaseResult where
  /-- Whether the phase failed. -/
  errored : Bool
  /-- What the phase reported, if anything. -/
  report : Option Report
  deriving DecidableEq, Repr

/-- One plan and apply cycle of a workspace. -/
structure Run where
  id : String
  /-- When the run was created. -/
  createdAt : Instant
  /-- The organization of the workspace. -/
  organization : String
  workspace : String
  /-- The configuration version to execute. -/
  configuration : String
  /-- Plan only, outside the queue and without the workspace's lock. -/
  speculative : Bool
  /-- Confirm a plan with changes automatically. -/
  autoApply : Bool
  /-- Destroy everything instead of converging. -/
  isDestroy : Bool
  /-- What the user says about it. -/
  message : Option String
  status : RunStatus
  /-- Every status entered so far, oldest first. -/
  log : List (Entered RunStatus)
  plan : Phase
  apply : Phase
  /-- The time that must have passed before a forced cancel. -/
  forceCancelFrom : Option Instant
  deriving DecidableEq, Repr

namespace Run

/-- The seconds between a cancel and the first moment of a forced one. -/
def coolOff : Int :=
  10

/-- The word that the identifiers of runs begin with. -/
def stem : String :=
  "run"

/-- A new run. -/
def new (number : Nat) (opts : NewRun) (now : Instant) : Run :=
  let id := Identifier.fresh stem number
  { id
    createdAt := now
    organization := opts.organization
    workspace := opts.workspace
    configuration := opts.configuration
    speculative := opts.speculative
    autoApply := opts.autoApply
    isDestroy := opts.isDestroy
    message := opts.message
    status := .pending
    log := [⟨.pending, now⟩]
    plan := Phase.new id .plan now
    apply := Phase.new id .apply now
    forceCancelFrom := none }

/-- Whether the run has come to its end. -/
def isDone (r : Run) : Bool :=
  r.status.isDone

/-- Whether the run is one that its workspace's queue has admitted and that has not ended. -/
def isActive (r : Run) : Bool :=
  !r.speculative && r.status.isActive

/-- The phase of a kind. -/
def phase (r : Run) : PhaseKind → Phase
  | .plan => r.plan
  | .apply => r.apply

/-- When the run entered a status, if it ever did. -/
def timeOf? (r : Run) (status : RunStatus) : Option Instant :=
  Entered.timeOf? r.log status

/-- The run after it entered a status. -/
def enter (r : Run) (status : RunStatus) (now : Instant) : Run :=
  { r with status, log := r.log ++ [⟨status, now⟩] }

/-- The run after its plan phase entered a status. -/
def enterPlan (r : Run) (status : PhaseStatus) (now : Instant) : Run :=
  { r with plan := r.plan.enter status now }

/-- The run after its apply phase entered a status. -/
def enterApply (r : Run) (status : PhaseStatus) (now : Instant) : Run :=
  { r with apply := r.apply.enter status now }

/-- The refusal of an action by a run's status. -/
def refusal (r : Run) (action : String) : Error :=
  .invalidTransition r.id action r.status.name

/-! ## Actions that carry a run forward -/

/-- Queue the plan of a pending run. -/
def enqueuePlan (r : Run) (now : Instant) : Except Error Run :=
  if r.status = .pending then .ok ((r.enter .planQueued now).enterPlan .queued now)
  else .error (r.refusal "enqueue_plan")

/-- Queue the apply of a planned run. -/
def enqueueApply (r : Run) (now : Instant) : Except Error Run :=
  if r.status = .planned then .ok ((r.enter .applyQueued now).enterApply .queued now)
  else .error (r.refusal "enqueue_apply")

/-- Claim a queued phase for an agent. Of several claims one succeeds; the others find the phase
claimed. -/
def start (r : Run) (kind : PhaseKind) (agent : String) (now : Instant) : Except Error Run :=
  match kind, r.status with
  | .plan, .planQueued =>
    .ok { (r.enter .planning now) with
      plan := { r.plan.enter .running now with claimedBy := some agent } }
  | .apply, .applyQueued =>
    .ok { (r.enter .applying now) with
      apply := { r.apply.enter .running now with claimedBy := some agent } }
  | .plan, .planning => .error (.phaseAlreadyClaimed r.id kind.name)
  | .apply, .applying => .error (.phaseAlreadyClaimed r.id kind.name)
  | _, _ => .error (r.refusal "start")

/-- Record that the plan ended. A plan without changes, or of a speculative run, ends the run;
another one awaits confirmation, which is given at once where the run says so. -/
def finishPlan (r : Run) (result : PhaseResult) (now later : Instant) : Except Error Run :=
  if result.errored then
    .ok (((r.enter .errored now).enterPlan .errored now).enterApply .unreachable now)
  else
    let report := result.report.getD Report.empty
    let ended := { r with plan := { r.plan.enter .finished now with report := some report } }
    if !report.hasChanges || r.speculative then
      .ok ((ended.enter .plannedAndFinished now).enterApply .unreachable now)
    else if r.autoApply then (ended.enter .planned now).enqueueApply later
    else .ok (ended.enter .planned now)

/-- Record that the apply ended. -/
def finishApply (r : Run) (result : PhaseResult) (now : Instant) : Except Error Run :=
  if result.errored then .ok ((r.enter .errored now).enterApply .errored now)
  else
    .ok { (r.enter .applied now) with
      apply := { r.apply.enter .finished now with report := result.report } }

/-- Record how an executing phase ended. A run that was canceled or discarded in the meantime stays
as it is. -/
def finish (r : Run) (kind : PhaseKind) (result : PhaseResult) (now later : Instant) :
    Except Error Run :=
  match kind, r.status with
  | _, .canceled => .ok r
  | _, .forceCanceled => .ok r
  | _, .discarded => .ok r
  | .plan, .planning => r.finishPlan result now later
  | .apply, .applying => r.finishApply result now
  | _, _ => .error (r.refusal "finish")

/-! ## Actions that end a run -/

/-- The run with its phases as a cancel leaves them. -/
def abandonPhases (r : Run) (now : Instant) : Run :=
  match r.status with
  | .pending => (r.enterPlan .unreachable now).enterApply .unreachable now
  | .planQueued | .planning => (r.enterPlan .canceled now).enterApply .unreachable now
  | .planned => r.enterApply .unreachable now
  | .applyQueued | .applying => r.enterApply .canceled now
  | _ => r

/-- Cancel a run that is not done. The flag tells whether a phase was executing, so that its agent
must be told to stop. -/
def cancel (r : Run) (now : Instant) : Except Error (Run × Bool) :=
  if r.isDone then .error (r.refusal "cancel")
  else
    .ok ({ ((r.abandonPhases now).enter .canceled now) with
      forceCancelFrom := some (now.addSeconds coolOff) }, r.status.isExecuting)

/-- Terminate a canceled run by force, once the cool-off has passed. -/
def forceCancelAt (r : Run) (now : Instant) : Except Error Run :=
  match r.forceCancelFrom with
  | some available =>
    if r.status = .canceled ∧ available < now then .ok (r.enter .forceCanceled now)
    else .error (r.refusal "force_cancel")
  | none => .error (r.refusal "force_cancel")

/-- Give up a run that is pending or awaits confirmation. -/
def discard (r : Run) (now : Instant) : Except Error Run :=
  match r.status with
  | .pending =>
    .ok (((r.enterPlan .unreachable now).enterApply .unreachable now).enter .discarded now)
  | .planned => .ok ((r.enterApply .unreachable now).enter .discarded now)
  | _ => .error (r.refusal "discard")

end Run

/-! ## All actions -/

/-- An action on a run. -/
inductive Action
  /-- Queue the plan. -/
  | enqueuePlan
  /-- Queue the apply. -/
  | enqueueApply
  /-- Claim a phase for an agent. -/
  | start (kind : PhaseKind) (agent : String)
  /-- Record how a phase ended. -/
  | finish (kind : PhaseKind) (result : PhaseResult)
  | cancel
  /-- Terminate by force. -/
  | forceCancel
  /-- Give up. -/
  | discard
  /-- Set whether a plan with changes is confirmed automatically. -/
  | setAutoApply (value : Bool)
  deriving DecidableEq, Repr

namespace Run

/-- Perform an action, with the flag of a cancel. -/
def perform (r : Run) (action : Action) (now later : Instant) :
    Except Error (Run × Option Bool) :=
  match action with
  | .enqueuePlan => (r.enqueuePlan now).map (·, none)
  | .enqueueApply => (r.enqueueApply now).map (·, none)
  | .start kind agent => (r.start kind agent now).map (·, none)
  | .finish kind result => (r.finish kind result now later).map (·, none)
  | .cancel => (r.cancel now).map fun c => (c.1, some c.2)
  | .forceCancel => (r.forceCancelAt now).map (·, none)
  | .discard => (r.discard now).map (·, none)
  | .setAutoApply value => .ok ({ r with autoApply := value }, none)

end Run

end Provision
