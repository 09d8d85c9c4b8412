import Provision.Cluster.Turns

/-!
# Controlling a cluster

Adding nodes, and starting and stopping what runs on them. A node that has everything is started and
stopped as a whole: `NodeSetup` says what belongs to it, and is refused where something is missing.
-/

namespace Provision

/-- The channel that the nodes of a cluster share unless told otherwise. -/
def defaultChannel : String :=
  "events"

/-- The time between two reconciliations unless told otherwise, in milliseconds. -/
def defaultReseed : Nat :=
  300000

/-- How a whole node is set up. -/
structure NodeSetup where
  hasStore : Bool := true
  hasTransport : Bool := true
  /-- What executes phases, if anything does. -/
  runner : Option ScriptedRunner := none
  /-- The channel that the nodes share. -/
  channel : String := defaultChannel
  /-- Whether the node competes for the scheduler's lease. -/
  hasScheduler : Bool := true
  /-- Whether the node executes phases. -/
  hasAgent : Bool := true
  /-- The name of the agent; a new one is made up if not given. -/
  agent : Option String := none
  /-- How many phases are executed at once. -/
  concurrency : Nat := 5
  /-- The milliseconds between two reconciliations. -/
  reseed : Nat := defaultReseed

/-- Why a setup is refused, if it is. -/
def NodeSetup.refusal? (s : NodeSetup) : Option String :=
  if !s.hasStore then some "persistence is required"
  else if !s.hasTransport then some "transport is required"
  else if s.hasAgent && s.runner.isNone then
    some "runner is required when the agent is enabled"
  else if s.concurrency = 0 then some "agent_concurrency must be at least 1"
  else none

/-- The parts of a whole node that run: the places of its scheduler and its agent. -/
structure RunningNode where
  /-- The place of the node. -/
  node : Nat
  /-- The place of the scheduler, if there is one. -/
  scheduler : Option Nat
  /-- The place of the agent, if there is one. -/
  agent : Option Nat
  deriving Repr

namespace Cluster

/-- The number of turns and of stops in time that are granted between two commands. -/
def patience : Nat :=
  1000000

/-- Let everything take turns until all tasks wait. -/
def rest : Step Unit :=
  settle patience

/-- Let some milliseconds pass. -/
def advance (millis : Nat) : Step Unit := do
  rest
  advanceTo patience ((← get).now + millis * Backoff.millisecond) patience
  rest

/-- Add a node with a broker. -/
def addNode (channel : String) (hasGetters isListening : Bool) : Step Nat := do
  let node := (← get).members.size
  let broker : Broker :=
    { id := Identifier.fresh "broker" node
      channel
      getters := if hasGetters then Broker.relations else [] }
  modify fun c => { c with
    members := c.members.push
      { broker, listener := if isListening then .starting else .stopped } }
  if isListening then wake (.listener node)
  return node

/-- Stop the listener of a node. -/
def stopListener (node : Nat) : Step Unit := do
  reviseMember node fun m => { m with isStopping := true }
  wake (.listener node)

/-- Start a scheduler on a node. -/
def addScheduler (node reseed base limit : Nat) : Step Nat := do
  let place := (← get).schedulers.size
  let task : SchedulerTask :=
    { node
      reseedEvery := reseed * Backoff.millisecond
      backoff := Backoff.new (base * Backoff.millisecond) (limit * Backoff.millisecond) }
  modify fun c => { c with schedulers := c.schedulers.push task }
  wake (.follower (.scheduler place))
  return place

/-- Ask a scheduler to stop. -/
def dismissScheduler (place : Nat) : Step Unit := do
  reviseScheduler place fun p => { p with isStopping := true }
  wake (.follower (.scheduler place))

/-- Whether a scheduler has not come to its end. -/
def isScheduling (c : Cluster) (place : Nat) : Bool :=
  match c.schedulers[place]? with
  | some { stage := .stopped _, .. } => false
  | some _ => true
  | none => false

/-- The fault that ended a scheduler. -/
def schedulerFault? (c : Cluster) (place : Nat) : Option Fault :=
  match c.schedulers[place]? with
  | some { stage := .stopped fault, .. } => fault
  | _ => none

/-- Start an agent on a node. -/
def addAgent (node : Nat) (id : String) (concurrency : Nat) (runner : ScriptedRunner) :
    Step Nat := do
  let place := (← get).agents.size
  modify fun c => { c with agents := c.agents.push { node, agent := { id, concurrency }, runner } }
  wake (.follower (.agent place))
  return place

/-- Ask an agent to stop. -/
def quitAgent (place : Nat) : Step Unit := do
  reviseAgent place fun p => { p with isStopping := true }
  wake (.follower (.agent place))

/-- Whether an agent has not come to its end. -/
def isExecuting (c : Cluster) (place : Nat) : Bool :=
  match c.agents[place]? with
  | some { stage := .stopped, .. } => false
  | some _ => true
  | none => false

/-- How many jobs of an agent are in flight. -/
def inFlight (c : Cluster) (place : Nat) : Nat :=
  ((c.agents[place]?).map (·.agent.inFlight)).getD 0

/-- How many names are registered on a node. -/
def subscribers (c : Cluster) (node : Nat) : Nat :=
  ((c.members[node]?).map (·.broker.registrations.length)).getD 0

/-- Give back what somebody holds. -/
def releaseLease (name : String) : Step Unit := do
  modify fun c => { c with leases := c.leases.withdraw (.guest name) }
  wakeHolder

/-- Take a lease for somebody who does not wait for it, and who holds one lease at a time. The answer is
whether the lease was free. -/
def holdLease (lease : Int) (name : String) : Step Bool := do
  if ((← get).leases.holder? lease).isSome then return false
  modify fun c => { c with leases := (c.leases.withdraw (.guest name)).request lease (.guest name) }
  wakeHolder
  return true

/-! ## Whole nodes -/

/-- Start a whole node. -/
def startNode (setup : NodeSetup) : Step (Except String RunningNode) := do
  match setup.refusal? with
  | some reason => return .error reason
  | none =>
    let node ← addNode setup.channel true true
    let scheduler ← if setup.hasScheduler then
        some <$> addScheduler node setup.reseed 500 30000
      else pure none
    let agent ← match setup.hasAgent, setup.runner with
      | true, some runner =>
        let id := setup.agent.getD (Identifier.fresh "agent" node)
        some <$> addAgent node id setup.concurrency runner
      | _, _ => pure none
    return .ok ⟨node, scheduler, agent⟩

/-- Whether all parts of a whole node run. -/
def isRunning (c : Cluster) (n : RunningNode) : Bool :=
  let isListening := match c.members[n.node]? with
    | some { listener := .stopped, .. } => false
    | some _ => true
    | none => false
  isListening && n.scheduler.all c.isScheduling && n.agent.all c.isExecuting

/-- Stop a whole node: the agent first, so that its jobs can report, then the scheduler and then the
listener. -/
def stopNode (n : RunningNode) : Step Unit := do
  if let some place := n.agent then
    quitAgent place
    rest
  if let some place := n.scheduler then
    dismissScheduler place
    rest
  stopListener n.node
  rest

end Cluster

end Provision
