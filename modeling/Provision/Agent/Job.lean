import Provision.Log.Writer
import Provision.Runner.Basic
import Provision.Service

/-!
# Jobs

A job is a phase that an agent has claimed. It is executed by a runner, whose output goes to the log;
when the runner returns, the log is closed and the phase is finished with the result. These steps come
one after the other, and a job takes each of them once:

claimed → executing → returned → closed → reporting → ended.

A job is in flight until it reports, so that a cancel can reach it, and it occupies a slot of the agent
until it has ended.
-/

namespace Provision

open Provision.Text (Bytes)

/-- How far a job has come. -/
inductive Job.Stage
  /-- The phase is claimed. -/
  | claimed
  /-- The runner executes it. -/
  | executing
  /-- The runner has returned. -/
  | returned (verdict : Verdict)
  /-- The log has been closed, as far as that was possible. -/
  | closed (verdict : Verdict)
  /-- The result is about to be recorded. -/
  | reporting (result : PhaseResult)
  /-- Nothing is left to do. -/
  | ended
  deriving Repr

/-- A claimed phase. -/
structure Job where
  /-- The number of the job on its agent. -/
  number : Nat
  /-- What to execute. -/
  spec : JobSpec
  /-- The writer of the phase's log. -/
  writer : LogWriter
  /-- What was asked of the job. -/
  signal : CancelSignal := {}
  /-- How far the job has come. -/
  stage : Job.Stage := .claimed
  deriving Repr

namespace Job

/-- The job of a claimed run. -/
def ofRun (number : Nat) (run : Run) (kind : PhaseKind) : Job where
  number
  spec :=
    { run := run.id
      phase := kind
      workspace := run.workspace
      configuration := run.configuration
      isDestroy := run.isDestroy }
  writer := { run := run.id, phase := kind }

/-- Whether a cancel still reaches the job. -/
def isInFlight (j : Job) : Bool :=
  match j.stage with
  | .reporting _ | .ended => false
  | _ => true

/-- Whether the job has come to its end. -/
def hasEnded (j : Job) : Bool :=
  match j.stage with
  | .ended => true
  | _ => false

/-- Ask the job to stop. -/
def cancel (j : Job) (force : Bool) : Job :=
  { j with signal := j.signal.request force }

/-- What is recorded when the runner has given its verdict. A phase that was asked to stop counts as
failed, whatever it made of it. -/
def result (verdict : Verdict) (signal : CancelSignal) : PhaseResult :=
  match verdict with
  | .ok outcome => if signal.isCanceled then ⟨true, none⟩ else ⟨false, outcome.report⟩
  | .error _ => ⟨true, none⟩

/-! ## Steps -/

/-- A step of a job that changes the ledger. -/
abbrev Step (α : Type) := StateM (Job × Ledger) α

/-- Hand the phase to the runner. -/
def begin_ (j : Job) : Job :=
  match j.stage with
  | .claimed => { j with stage := .executing }
  | _ => j

/-- Write output of the runner to the log. -/
def write (data : Bytes) : Step (Except RunnerError Unit) :=
  fun s =>
    let r := LogWriter.write Service.putChunk data (s.1.writer, s.2)
    (r.1, ({ s.1 with writer := r.2.1 }, r.2.2))

/-- Take the verdict of the runner. -/
def return_ (j : Job) (verdict : Verdict) : Job :=
  match j.stage with
  | .executing => { j with stage := .returned verdict }
  | _ => j

/-- Close the log. That it cannot be closed is no reason to stop. -/
def closeLog : Step Unit :=
  fun s =>
    match s.1.stage with
    | .returned verdict =>
      let r := LogWriter.close Service.putChunk (s.1.writer, s.2)
      ((), ({ s.1 with writer := r.2.1, stage := .closed verdict }, r.2.2))
    | _ => ((), s)

/-- Decide what to record. From here on a cancel does not reach the job. -/
def conclude (j : Job) : Job :=
  match j.stage with
  | .closed verdict => { j with stage := .reporting (result verdict j.signal) }
  | _ => j

/-- Record the result. That it cannot be recorded is no reason to stop. -/
def report : Step Unit :=
  fun s =>
    match s.1.stage with
    | .reporting result =>
      let r := Service.finishPhase s.1.spec.run s.1.spec.phase result s.2
      ((), ({ s.1 with stage := .ended }, r.2))
    | _ => ((), s)

/-- Everything that is left to do when the runner has returned. -/
def wrapUp (verdict : Verdict) : Step Unit := do
  modify fun s => (s.1.return_ verdict, s.2)
  closeLog
  modify fun s => (s.1.conclude, s.2)
  report

end Job

end Provision
