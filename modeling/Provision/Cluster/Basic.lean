import Provision.Agent.Basic
import Provision.Backoff
import Provision.Broker
import Provision.Lease
import Provision.Runner.Scripted
import Provision.Scheduler

/-!
# Clusters

A cluster is a number of nodes on one store and one transport. On each node there is a broker, and there
may be a listener, which takes in what other nodes tell, a scheduler and an agent. Time is virtual and
counted in nanoseconds; it passes only when it is told to.

What runs are tasks. A task is ready once something happened that it waits for. Ready tasks take turns
in the order they became ready, and a turn goes on until the task waits again.
-/

namespace Provision

/-- What a listener is doing. -/
inductive ListenerStage
  /-- About to open a stream. -/
  | starting
  /-- Reading a stream. -/
  | listening (stream : Stream)
  /-- Waiting for the next attempt. -/
  | sleeping (due : Nat)
  /-- Not running. -/
  | stopped
  deriving Repr

/-- A node. -/
structure Member where
  broker : Broker
  /-- What the listener is doing. -/
  listener : ListenerStage := .stopped
  /-- The delays between attempts to open a stream. -/
  backoff : Backoff := Backoff.connection
  /-- Whether the listener was asked to stop. -/
  isStopping : Bool := false

/-- A subscription, together with the events that were taken out of its inbox and wait to be
handled. -/
structure Session where
  /-- The generation of the subscription. -/
  generation : Nat
  /-- The events to handle, oldest first. -/
  events : List Event := []
  /-- Whether nothing more will come. -/
  hasEnded : Bool := false

/-- What a scheduler is doing. -/
inductive SchedulerStage
  /-- About to ask for the lease. -/
  | starting
  /-- Waiting for the lease. -/
  | waiting
  /-- Following events until the next reconciliation is due. -/
  | following (session : Session) (reseedDue : Nat)
  /-- Waiting for the next attempt. -/
  | sleeping (due : Nat)
  /-- Not running any more, with the fault that ended it, if any. -/
  | stopped (fault : Option Fault)

/-- A scheduler on a node. -/
structure SchedulerTask where
  /-- The place of the node. -/
  node : Nat
  /-- The time between two reconciliations. -/
  reseedEvery : Nat
  /-- The delays between attempts. -/
  backoff : Backoff
  /-- The queues. -/
  roster : Roster := []
  /-- What the scheduler is doing. -/
  stage : SchedulerStage := .starting
  /-- Whether it was asked to stop. -/
  isStopping : Bool := false

/-- What an agent is doing. -/
inductive AgentStage
  /-- About to subscribe. -/
  | starting
  /-- Following events. -/
  | following (session : Session)
  /-- Waiting for the next attempt. -/
  | sleeping (due : Nat)
  /-- Waiting for its jobs to end. -/
  | draining
  /-- Not running any more. -/
  | stopped

/-- An agent on a node. -/
structure AgentTask where
  /-- The place of the node. -/
  node : Nat
  agent : Agent
  /-- What executes the phases. -/
  runner : ScriptedRunner
  /-- How many phases were started. -/
  executed : Nat := 0
  /-- When the phases of jobs end by themselves. -/
  alarms : List (Nat × Nat) := []
  /-- The delays between attempts. -/
  backoff : Backoff := Backoff.connection
  /-- What the agent is doing. -/
  stage : AgentStage := .starting
  /-- Whether it was asked to stop. -/
  isStopping : Bool := false

/-- Who follows a subscription. -/
inductive Follower
  | scheduler (place : Nat)
  | agent (place : Nat)
  deriving DecidableEq, Repr

/-- Something that takes turns. -/
inductive Turn
  | listener (node : Nat)
  | follower (who : Follower)
  /-- Taking events out of the inbox of a follower. -/
  | relay (who : Follower)
  | job (agent number : Nat)
  /-- Giving up a registration. -/
  | reaper (node : Nat) (registration : Registration)
  deriving DecidableEq, Repr

/-- Who asks for a lease. -/
inductive Party
  | scheduler (place : Nat)
  /-- Somebody else. -/
  | guest (name : String)
  deriving DecidableEq, Repr

/-- A number of nodes on one store and one transport. -/
structure Cluster where
  /-- The store and what goes with it. -/
  ledger : Ledger := {}
  transport : Transport := {}
  leases : Leases Party := {}
  /-- The nodes. -/
  members : Array Member := #[]
  /-- The schedulers, in the order they were started. -/
  schedulers : Array SchedulerTask := #[]
  /-- The agents, in the order they were started. -/
  agents : Array AgentTask := #[]
  /-- The virtual time. -/
  now : Nat := 0
  /-- The turns to take, in order. -/
  ready : List Turn := []

/-- When the listener of a node starts again, if it waits for that. -/
def Member.listenerAlarm? (m : Member) : Option Nat :=
  match m.listener with
  | .sleeping due => some due
  | _ => none

/-- When a scheduler next looks at its session, if it waits for a time. -/
def SchedulerTask.alarm? (p : SchedulerTask) : Option Nat :=
  match p.stage with
  | .sleeping due => some due
  | .following _ due => some due
  | _ => none

/-- When an agent next looks at its session, if it waits for a time. -/
def AgentTask.alarm? (p : AgentTask) : Option Nat :=
  match p.stage with
  | .sleeping due => some due
  | _ => none

namespace Cluster

/-- A step of a cluster. -/
abbrev Step (α : Type) := StateM Cluster α

/-- Let something take a turn. -/
def wake (t : Turn) : Step Unit :=
  modify fun c => if c.ready.contains t then c else { c with ready := c.ready ++ [t] }

/-- Change a node. -/
def reviseMember (node : Nat) (f : Member → Member) : Step Unit :=
  modify fun c => { c with members := c.members.modify node f }

/-- Change the broker of a node. -/
def reviseBroker (node : Nat) (f : Broker → Broker) : Step Unit :=
  reviseMember node fun m => { m with broker := f m.broker }

/-- Change a scheduler. -/
def reviseScheduler (place : Nat) (f : SchedulerTask → SchedulerTask) : Step Unit :=
  modify fun c => { c with schedulers := c.schedulers.modify place f }

/-- Change an agent. -/
def reviseAgent (place : Nat) (f : AgentTask → AgentTask) : Step Unit :=
  modify fun c => { c with agents := c.agents.modify place f }

/-- The session of a follower and the place of its node, while it follows events. -/
def session? (c : Cluster) : Follower → Option (Nat × Session)
  | .scheduler place =>
    match c.schedulers[place]? with
    | some { node, stage := .following session _, .. } => some (node, session)
    | _ => none
  | .agent place =>
    match c.agents[place]? with
    | some { node, stage := .following session, .. } => some (node, session)
    | _ => none

/-- Change the session of a follower. -/
def reviseSession (who : Follower) (f : Session → Session) : Step Unit :=
  match who with
  | .scheduler place =>
    reviseScheduler place fun p =>
      match p.stage with
      | .following session due => { p with stage := .following (f session) due }
      | _ => p
  | .agent place =>
    reviseAgent place fun p =>
      match p.stage with
      | .following session => { p with stage := .following (f session) }
      | _ => p

/-- Every scheduler and agent, as followers. -/
def followers (c : Cluster) : List Follower :=
  (List.range c.schedulers.size).map .scheduler ++ (List.range c.agents.size).map .agent

/-- Let the scheduler that has come to hold the lease take a turn, if it is one. -/
def wakeHolder : Step Unit := do
  if let some (.scheduler next) := (← get).leases.holder? Scheduler.lease then
    wake (.follower (.scheduler next))

/-! ## Events -/

/-- Wake what takes events out of the inboxes of a node, where there is something to take out, or
nothing will come any more. -/
def wakeRelays (node : Nat) : Step Unit := do
  let c ← get
  for who in c.followers do
    if let some (place, session) := c.session? who then
      if place = node then
        if let some m := c.members[node]? then
          let isEmpty := ((m.broker.inbox? session.generation).map (·.events)).getD [] == []
          if !isEmpty || !m.broker.isRegistered session.generation then wake (.relay who)

/-- Wake the listeners that read a stream. -/
def wakeListeners : Step Unit := do
  let c ← get
  for node in List.range c.members.size do
    if let some { listener := .listening _, .. } := c.members[node]? then wake (.listener node)

/-- Change the transport, and wake the listeners if something was sent. -/
def setTransport (t : Transport) : Step Unit := do
  let before := (← get).transport.sent.size
  modify fun c => { c with transport := t }
  if before < t.sent.size then wakeListeners

/-- Publish an event on the broker of a node. -/
def publish (node : Nat) (e : Event) : Step Unit := do
  let c ← get
  if let some m := c.members[node]? then
    let (broker, transport) := m.broker.publish c.transport e
    reviseBroker node fun _ => broker
    wakeRelays node
    setTransport transport

/-- Publish on a node what was announced. -/
def publishAnnounced (node : Nat) : Step Unit := do
  let announced := (← get).ledger.announced
  modify fun c => { c with ledger := { c.ledger with announced := [] } }
  announced.forM (publish node)

/-- Carry out an operation on a node, and publish what it announces. -/
def serve {α : Type} (node : Nat) (x : Service α) : Step (Except Error α) := do
  let r := x (← get).ledger
  modify fun c => { c with ledger := r.2 }
  publishAnnounced node
  return r.1

/-- Open a session on a node. -/
def openSession (node : Nat) (name : String) : Step (Except Fault Session) := do
  match (← get).members[node]? with
  | none => return .error (.other "no such node")
  | some m =>
    match m.broker.subscribe name with
    | .error f => return .error f
    | .ok (generation, broker) =>
      reviseBroker node fun _ => broker
      return .ok { generation := generation }

/-- Give up a session on a node. -/
def closeSession (node : Nat) (name : String) (session : Session) : Step Unit := do
  reviseBroker node (·.dropInbox session.generation)
  wake (.reaper node ⟨name, session.generation⟩)

end Cluster

end Provision
