import Provision.Queue.Basic

/-!
# Recorded calls

A backend can be watched and made to fail. `Backend.recorded` writes down each call before it is
carried out, and refuses it where a failure was laid down for the next call of its name.
-/

namespace Provision

/-- A world with a record of the calls made in it. -/
structure Recording (σ : Type) where
  /-- The state of the world. -/
  world : σ
  /-- The calls, oldest first. -/
  calls : List String := []
  /-- The refusals laid down, by the name of the call. -/
  failures : List (String × Error) := []

namespace Recording

variable {σ : Type}

/-- Lay down that the next call of a name is refused. -/
def failNext (r : Recording σ) (call : String) (e : Error) : Recording σ :=
  { r with failures := r.failures ++ [(call, e)] }

/-- Write down a call, and carry it out unless it is to be refused. -/
def perform {α : Type} (name : String) (arguments : List String)
    (x : ExceptT Error (StateM σ) α) : ExceptT Error (StateM (Recording σ)) α :=
  fun r =>
    let r := { r with calls := r.calls ++ [" ".intercalate (name :: arguments)] }
    match r.failures.find? fun f => f.1 == name with
    | some f => (.error f.2, { r with failures := r.failures.erase f })
    | none =>
      let outcome := x r.world
      (outcome.1, { r with world := outcome.2 })

end Recording

/-- A backend whose calls are written down and may be made to fail. -/
def Backend.recorded {σ : Type} (b : Backend σ) : Backend (Recording σ) where
  getRun run := Recording.perform "get_run" [run] (b.getRun run)
  getWorkspace ws := Recording.perform "get_workspace" [ws] (b.getWorkspace ws)
  enqueuePlan run := Recording.perform "enqueue_plan" [run] (b.enqueuePlan run)
  lockWorkspace ws holder :=
    Recording.perform "lock_workspace" [ws, holder.describe] (b.lockWorkspace ws holder)
  unlockWorkspace ws requester force :=
    Recording.perform "unlock_workspace" [ws, requester.describe, toString force]
      (b.unlockWorkspace ws requester force)
  setCurrentRun ws run := Recording.perform "set_current_run" [ws, run] (b.setCurrentRun ws run)

end Provision
