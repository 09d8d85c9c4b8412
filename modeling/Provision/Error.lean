/-!
# Errors

Why an operation on runs, workspaces or their storage is refused. Each error is a cause with its
particulars; `code` names the cause and `message` tells it to a person.

* `isPrecondition`: the caller came too late or too early and may simply wait.
* `isNotFound`: something that was asked for does not exist.
-/

namespace Provision

/-- The cause of a refusal. -/
inductive Error
  /-- No run has the identifier. -/
  | runNotFound (run : String)
  /-- No workspace has the identifier. -/
  | workspaceNotFound (workspace : String)
  /-- No organization has the name. -/
  | organizationNotFound (name : String)
  /-- No log chunk has the number. -/
  | chunkNotFound (chunk : Int)
  /-- Something of the kind with the identifier is already there. -/
  | alreadyExists (kind : String) (id : String)
  /-- The run's status does not permit the action. -/
  | invalidTransition (run : String) (action : String) (status : String)
  /-- The phase of the run is already executing. -/
  | phaseAlreadyClaimed (run : String) (phase : String)
  /-- The workspace is held by somebody who cannot be replaced. -/
  | workspaceAlreadyLocked (workspace : String) (holder : String)
  /-- The workspace is not locked. -/
  | workspaceAlreadyUnlocked (workspace : String)
  /-- The workspace is held by somebody else. -/
  | workspaceLockedByDifferentParty (workspace : String) (holder : String)
  /-- What is stored breaks a rule that scheduling relies on. -/
  | consistencyViolation (details : String)
  /-- An input is not acceptable. -/
  | validation (field : String) (reason : String)
  /-- The storage behind the operation failed. -/
  | database (operation : String) (details : String)
  deriving DecidableEq, Repr

namespace Error

/-- A query that the database does not answer. -/
def unanswered (details : String) : Error :=
  .database "query" details

/-- A text that is not the JSON of what is asked for. -/
def unreadable (details : String) : Error :=
  .database "json" details

/-- The name of the cause. -/
def code : Error → String
  | .runNotFound _ => "RUN_NOT_FOUND"
  | .workspaceNotFound _ => "WORKSPACE_NOT_FOUND"
  | .organizationNotFound _ => "ORGANIZATION_NOT_FOUND"
  | .chunkNotFound _ => "CHUNK_NOT_FOUND"
  | .alreadyExists .. => "ALREADY_EXISTS"
  | .invalidTransition .. => "INVALID_TRANSITION"
  | .phaseAlreadyClaimed .. => "PHASE_ALREADY_CLAIMED"
  | .workspaceAlreadyLocked .. => "WORKSPACE_ALREADY_LOCKED"
  | .workspaceAlreadyUnlocked _ => "WORKSPACE_ALREADY_UNLOCKED"
  | .workspaceLockedByDifferentParty .. => "WORKSPACE_LOCKED_BY_DIFFERENT_PARTY"
  | .consistencyViolation _ => "CONSISTENCY_VIOLATION"
  | .validation .. => "VALIDATION_ERROR"
  | .database .. => "DATABASE_ERROR"

/-- Whether only a precondition did not hold. -/
def isPrecondition : Error → Bool
  | .phaseAlreadyClaimed .. => true
  | .workspaceAlreadyLocked .. => true
  | .workspaceAlreadyUnlocked _ => true
  | .workspaceLockedByDifferentParty .. => true
  | _ => false

/-- Whether something asked for does not exist. -/
def isNotFound : Error → Bool
  | .runNotFound _ => true
  | .workspaceNotFound _ => true
  | .organizationNotFound _ => true
  | .chunkNotFound _ => true
  | _ => false

/-- A name between single quotes. -/
def quoted (s : String) : String :=
  "'" ++ s ++ "'"

/-- The cause in words. -/
def message : Error → String
  | .runNotFound run => "Run " ++ quoted run ++ " not found"
  | .workspaceNotFound workspace => "Workspace " ++ quoted workspace ++ " not found"
  | .organizationNotFound name => "Organization " ++ quoted name ++ " not found"
  | .chunkNotFound chunk => "Log chunk " ++ toString chunk ++ " not found"
  | .alreadyExists kind id => kind ++ " " ++ quoted id ++ " already exists"
  | .invalidTransition run action status =>
    "Invalid state transition: cannot " ++ action ++ " run " ++ quoted run ++ " with status " ++
      quoted status
  | .phaseAlreadyClaimed run phase =>
    "The " ++ phase ++ " phase of run " ++ quoted run ++ " has already been started"
  | .workspaceAlreadyLocked workspace holder =>
    "Workspace " ++ quoted workspace ++ " is already locked by " ++ holder
  | .workspaceAlreadyUnlocked workspace =>
    "Workspace " ++ quoted workspace ++ " is already unlocked"
  | .workspaceLockedByDifferentParty workspace holder =>
    "Workspace " ++ quoted workspace ++ " is locked by a different party: " ++ holder
  | .consistencyViolation details => "Consistency violation: " ++ details
  | .validation field reason => "Validation error for " ++ quoted field ++ ": " ++ reason
  | .database operation details =>
    "Database error during " ++ quoted operation ++ ": " ++ details

end Error

end Provision
