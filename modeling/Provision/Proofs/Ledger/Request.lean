import Provision.Proofs.Effect
import Provision.Proofs.Keyed
import Provision.Proofs.Run.Outcome

/-!
# Requests and what they do to a ledger

A `Request` is a call of the services as data. `Request.Effect` lists what a ledger can look like after
one: unchanged, or with one change of the store and one event that announces it.

* `Request.effect`: the list is complete.
* `Request.IsOutside` marks the calls of users and agents.
-/

namespace Provision

namespace Store

/-- The store with a workspace in the place of the one with its identifier. -/
def setWorkspace (s : Store) (w : Workspace) : Store :=
  { s with workspaces := Keyed.replace Workspace.id s.workspaces w }

/-- The store with a run in the place of the one with its identifier. -/
def setRun (s : Store) (r : Run) : Store :=
  { s with runs := Keyed.replace Run.id s.runs r }

/-- The store without an organization and all below it. -/
def dropOrganization (s : Store) (name : String) : Store :=
  { s with
    organizations := s.organizations.filter fun o => o.name != name
    workspaces := s.workspaces.filter fun w => w.organization != name }.keepRuns
      fun r => r.organization != name

/-- The store without a workspace and all below it. -/
def dropWorkspace (s : Store) (id : String) : Store :=
  { s with workspaces := s.workspaces.filter fun w => w.id != id }.keepRuns
    fun r => r.workspace != id

end Store

/-- The ledger after a change of the store and the event that announces it. -/
def Ledger.post (l : Ledger) (s : Store) (e : Event) : Ledger :=
  { l with store := s, announced := l.announced ++ [e] }

/-- The ledger after a number was taken from the supply. -/
def Ledger.spend (l : Ledger) : Ledger :=
  { l with supply := l.supply + 1 }

/-- The ledger after a workspace was replaced. -/
def Ledger.putWorkspace (l : Ledger) (type : EventType) (w : Workspace) : Ledger :=
  l.post (l.store.setWorkspace w) (Event.ofWorkspace type w)

/-- The ledger after a run was replaced. -/
def Ledger.putRun (l : Ledger) (r : Run) : Ledger :=
  l.post (l.store.setRun r) (Event.runStatus r)

/-- A call of the services. -/
inductive Request
  | createOrganization (name : String)
  /-- Delete an organization with everything below it. -/
  | deleteOrganization (name : String)
  | createWorkspace (opts : NewWorkspace)
  /-- Delete a workspace with its runs. -/
  | deleteWorkspace (workspace : String)
  | lock (workspace : String) (holder : Holder)
  | unlock (workspace : String) (requester : Holder) (force : Bool)
  /-- Record the run that a workspace admitted last. -/
  | setCurrentRun (workspace run : String)
  /-- Set whether the runs of a workspace confirm their plans automatically. -/
  | setAutoApply (workspace : String) (value : Bool)
  | createRun (request : RunRequest)
  /-- Queue the plan of a run. -/
  | enqueuePlan (run : String)
  /-- Confirm a planned run. -/
  | confirm (run : String)
  /-- Claim a queued phase for an agent. -/
  | startPhase (run : String) (kind : PhaseKind) (agent : String)
  /-- Record how a phase ended. -/
  | finishPhase (run : String) (kind : PhaseKind) (result : PhaseResult)
  | cancel (run : String)
  /-- Terminate a canceled run by force. -/
  | forceCancel (run : String)
  /-- Give up a run. -/
  | discard (run : String)
  | deleteRun (run : String)
  /-- Store a piece of a phase's output. -/
  | putChunk (chunk : Chunk)
  deriving DecidableEq, Repr

namespace Request

/-- Make the call; its value does not matter here. -/
def perform : Request → Service Unit
  | .createOrganization name => do let _ ← Service.createOrganization name
  | .deleteOrganization name => Service.deleteOrganization name
  | .createWorkspace opts => do let _ ← Service.createWorkspace opts
  | .deleteWorkspace workspace => Service.deleteWorkspace workspace
  | .lock workspace holder => do let _ ← Service.lockWorkspace workspace holder
  | .unlock workspace requester force => do
    let _ ← Service.unlockWorkspace workspace requester force
  | .setCurrentRun workspace run => do let _ ← Service.setCurrentRun workspace run
  | .setAutoApply workspace value => do let _ ← Service.setAutoApply workspace value
  | .createRun request => do let _ ← Service.createRun request
  | .enqueuePlan run => do let _ ← Service.enqueuePlan run
  | .confirm run => do let _ ← Service.confirm run
  | .startPhase run kind agent => do let _ ← Service.startPhase run kind agent
  | .finishPhase run kind result => do let _ ← Service.finishPhase run kind result
  | .cancel run => do let _ ← Service.cancel run
  | .forceCancel run => do let _ ← Service.forceCancel run
  | .discard run => do let _ ← Service.discard run
  | .deleteRun run => Service.deleteRun run
  | .putChunk chunk => do let _ ← Service.putChunk chunk

/-- The action on a run that a call comes down to, with the run. -/
def action? : Request → Option (String × Action)
  | .enqueuePlan run => some (run, .enqueuePlan)
  | .confirm run => some (run, .enqueueApply)
  | .startPhase run kind agent => some (run, .start kind agent)
  | .finishPhase run kind result => some (run, .finish kind result)
  | .cancel run => some (run, .cancel)
  | .forceCancel run => some (run, .forceCancel)
  | .discard run => some (run, .discard)
  | _ => none

/-- The calls that users and agents make: they do not queue plans, and lock and unlock on behalf of
users only. -/
def IsOutside : Request → Prop
  | .enqueuePlan _ => False
  | .lock _ holder => holder.isUser = true
  | .unlock _ requester _ => requester.isUser = true
  | _ => True

/-- What a ledger can look like after a call. -/
inductive Effect (l : Ledger) : Request → Ledger → Prop
  | refused (c : Request) : Effect l c l
  | refusedLate (opts : NewWorkspace) : Effect l (.createWorkspace opts) l.spend
  | refusedRun (request : RunRequest) : Effect l (.createRun request) l.spend
  | organizationCreated (org : Organization) :
      (∀ o ∈ l.store.organizations, o.name ≠ org.name) →
      Effect l (.createOrganization org.name)
        (l.post { l.store with organizations := l.store.organizations ++ [org] }
          { type := .organizationCreated, payload := .organization org })
  | organizationDeleted (name : String) :
      Effect l (.deleteOrganization name)
        (l.post (l.store.dropOrganization name) (Event.deleted .organizationDeleted name))
  | workspaceCreated (opts : NewWorkspace) (o : Organization) :
      o ∈ l.store.organizations → o.name = opts.organization →
      Effect l (.createWorkspace opts)
        (l.spend.post
          { l.store with
            workspaces := l.store.workspaces ++ [Workspace.new l.supply opts l.clock] }
          (Event.ofWorkspace .workspaceCreated (Workspace.new l.supply opts l.clock)))
  | workspaceDeleted (id : String) : (∃ w ∈ l.store.workspaces, w.id = id) →
      Effect l (.deleteWorkspace id)
        (l.post (l.store.dropWorkspace id) (Event.deleted .workspaceDeleted id))
  | locked (w w' : Workspace) (holder : Holder) : l.store.workspace? w.id = some w →
      w.acquire holder = .ok w' →
      Effect l (.lock w.id holder)
        (l.putWorkspace .workspaceLocked w')
  | unlocked (w w' : Workspace) (requester : Holder) (force : Bool) :
      l.store.workspace? w.id = some w → w.release requester force = .ok w' →
      Effect l (.unlock w.id requester force)
        (l.putWorkspace .workspaceUnlocked w')
  | currentRunSet (w : Workspace) (run : String) : l.store.workspace? w.id = some w →
      Effect l (.setCurrentRun w.id run)
        (l.putWorkspace .workspaceUpdated { w with currentRun := some run })
  | autoApplySet (w : Workspace) (value : Bool) : l.store.workspace? w.id = some w →
      Effect l (.setAutoApply w.id value)
        (l.putWorkspace .workspaceUpdated { w with autoApply := value })
  | runCreated (request : RunRequest) (w : Workspace) (r : Run) :
      l.store.workspace? request.workspace = some w →
      r = Run.new l.supply
        { organization := w.organization
          workspace := w.id
          configuration := request.configuration
          speculative := request.speculative
          autoApply := request.autoApply.getD w.autoApply
          isDestroy := request.isDestroy
          message := request.message } l.clock →
      Effect l (.createRun request)
        (l.spend.post { l.store with runs := l.store.runs ++ [r] }
          { type := .runCreated, payload := .run r })
  | acted (c : Request) (action : Action) (r r' : Run) : c.action? = some (r.id, action) →
      l.store.run? r.id = some r → r.Outcome l.clock l.clock action r' →
      Effect l c (l.putRun r')
  | runDeleted (r : Run) : l.store.run? r.id = some r → r.isDone = true →
      Effect l (.deleteRun r.id)
        (l.post (l.store.keepRuns fun v => v.id != r.id) (Event.deleted .runDeleted r.id))
  | chunkStored (chunk : Chunk) (s : Store) (stored : StoredChunk) :
      l.store.putChunk chunk = .ok (stored, s) →
      Effect l (.putChunk chunk) (l.post s { type := .chunkCreated, payload := .chunk stored })

end Request

end Provision
