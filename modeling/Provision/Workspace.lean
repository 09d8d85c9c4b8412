import Provision.Error
import Provision.Identifier
import Provision.Time.Instant

/-!
# Workspaces and their locks

A workspace is what runs are serialized on. Its lock is held by a run, for as long as the run is
active, or by a user, who keeps all runs out.

* `Workspace.acquire`: a user replaces a run; nobody else replaces anybody. Asking again is allowed.
* `Workspace.release`: only the holder gives the lock back, unless it is forced open.
-/

namespace Provision

/-- Who holds a lock or asks for it. -/
inductive Holder
  | run (id : String)
  | user (name : String)
  deriving DecidableEq, Repr

namespace Holder

/-- The kind of holder, as it is stored. -/
def kind : Holder → String
  | .run _ => "run"
  | .user _ => "user"

/-- The identifier of the holder. -/
def id : Holder → String
  | .run id => id
  | .user name => name

/-- The holder of a kind and identifier. -/
def ofParts (kind id : String) : Except Error Holder :=
  if kind = "run" then .ok (.run id)
  else if kind = "user" then .ok (.user id)
  else .error (.validation "lock_kind" ("unknown lock kind " ++ Error.quoted kind))

/-- The holder in words. -/
def describe (h : Holder) : String :=
  h.kind ++ " " ++ h.id

/-- Whether the holder is a user. -/
def isUser : Holder → Bool
  | .user _ => true
  | .run _ => false

end Holder

/-- What is asked for when a workspace is created. -/
structure NewWorkspace where
  /-- The name, unique in the organization. -/
  name : String := ""
  organization : String := ""
  /-- Whether runs confirm their plans automatically unless they say otherwise. -/
  autoApply : Bool := false
  deriving DecidableEq, Repr

/-- A workspace. -/
structure Workspace where
  id : String
  /-- The name, unique in the organization. -/
  name : String
  organization : String
  /-- Whether runs confirm their plans automatically unless they say otherwise. -/
  autoApply : Bool
  /-- When the workspace was created. -/
  createdAt : Instant
  /-- The run that the scheduler admitted last. -/
  currentRun : Option String
  /-- The holder of the lock; none while it is open. -/
  lock : Option Holder
  deriving DecidableEq, Repr

namespace Workspace

/-- The word that the identifiers of workspaces begin with. -/
def stem : String :=
  "ws"

/-- A new workspace, unlocked. -/
def new (number : Nat) (opts : NewWorkspace) (now : Instant) : Workspace :=
  { id := Identifier.fresh stem number
    name := opts.name
    organization := opts.organization
    autoApply := opts.autoApply
    createdAt := now
    currentRun := none
    lock := none }

/-- Whether anybody holds the lock. -/
def isLocked (w : Workspace) : Bool :=
  w.lock.isSome

/-- Whether a user holds the lock. -/
def isUserLocked (w : Workspace) : Bool :=
  w.lock.any Holder.isUser

/-- Take the lock for a holder. -/
def acquire (w : Workspace) (holder : Holder) : Except Error Workspace :=
  match w.lock with
  | none => .ok { w with lock := some holder }
  | some current =>
    if current = holder then .ok w
    else if holder.isUser && !current.isUser then .ok { w with lock := some holder }
    else .error (.workspaceAlreadyLocked w.id current.describe)

/-- Give the lock back for a requester, or force it open. -/
def release (w : Workspace) (requester : Holder) (force : Bool) : Except Error Workspace :=
  match w.lock with
  | none => .error (.workspaceAlreadyUnlocked w.id)
  | some current =>
    if force || decide (current = requester) then .ok { w with lock := none }
    else .error (.workspaceLockedByDifferentParty w.id current.describe)

end Workspace

end Provision
