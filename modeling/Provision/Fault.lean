import Provision.Config
import Provision.Error

/-!
# Faults of a node

What can go wrong around the operations on runs: a phase that cannot be executed (`RunnerError`),
and everything else that a node reports (`Fault`). A fault is fatal if what is stored breaks a rule,
for then trying again cannot help.
-/

namespace Provision

/-- Why a phase was not executed to its end. -/
inductive RunnerError
  /-- The engine is not there. -/
  | binaryNotFound (path : String)
  /-- The execution was canceled. -/
  | cancelled
  /-- The engine could not be started. -/
  | startFailed (reason : String)
  /-- The engine ended with a failure. -/
  | exitCode (code : Int) (stderr : String)
  /-- The output of the phase could not be stored. -/
  | output (cause : Error)
  /-- The operating system refused something. -/
  | io (reason : String)
  /-- Anything else. -/
  | other (reason : String)
  deriving DecidableEq, Repr

namespace RunnerError

/-- The name of the cause. -/
def code : RunnerError → String
  | .binaryNotFound _ => "BINARY_NOT_FOUND"
  | .cancelled => "CANCELLED"
  | .startFailed _ => "START_FAILED"
  | .exitCode .. => "EXIT_CODE"
  | .output _ => "OUTPUT"
  | .io _ => "IO"
  | .other _ => "OTHER"

/-- The cause in words. -/
def message : RunnerError → String
  | .binaryNotFound path => "Binary not found: " ++ path
  | .cancelled => "Execution cancelled"
  | .startFailed reason => "Process start failed: " ++ reason
  | .exitCode code stderr => "Exit code " ++ toString code ++ ": " ++ stderr
  | .output cause => "Output error: " ++ cause.message
  | .io reason => "IO error: " ++ reason
  | .other reason => "Other: " ++ reason

end RunnerError

/-- What a node reports as failed. -/
inductive Fault
  | config (cause : ConfigError)
  | database (reason : String)
  /-- Something that the operating system refused. -/
  | io (reason : String)
  /-- The execution of a phase. -/
  | runner (cause : RunnerError)
  /-- An operation on runs, workspaces or their storage. -/
  | core (cause : Error)
  /-- A subscription under a name that is taken. -/
  | subscriptionExists (name : String)
  /-- The transport of notifications. -/
  | transport (reason : String)
  /-- Anything else. -/
  | other (reason : String)
  deriving DecidableEq, Repr

namespace Fault

/-- The fault in words. -/
def message : Fault → String
  | .config cause => "Configuration error: " ++ cause.message
  | .database reason => "Database error: " ++ reason
  | .io reason => "IO error: " ++ reason
  | .runner cause => "Runner error: " ++ cause.message
  | .core cause => "Core error: " ++ cause.message
  | .subscriptionExists name => "Subscription name already taken: " ++ name
  | .transport reason => "Notification transport error: " ++ reason
  | .other reason => reason

/-- The refused operation, if the fault is one. -/
def error? : Fault → Option Error
  | .core cause => some cause
  | _ => none

/-- Whether what is stored breaks a rule. -/
def isFatal : Fault → Bool
  | .core (.consistencyViolation _) => true
  | _ => false

end Fault

end Provision
