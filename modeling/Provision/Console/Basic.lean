import Provision.Cluster.Control
import Provision.Console.Alias
import Provision.Log.Writer

/-!
# Consoles

A console is a cluster in the hands of an operator. Nodes have names, and the operator holds
subscriptions and log writers, each under a name. What is done on a node that has no name yet adds it
first.

* `Console.serve` carries out an operation of the services on a node; `Console.amend` changes the store
  without telling anybody.
* What an operator asks for and is not there is refused with `Console.Failure.missing`.
-/

namespace Provision

/-- A node in the hands of an operator. -/
structure Station where
  /-- The place of the node. -/
  node : Nat
  /-- The place of the scheduler that was started last. -/
  scheduler : Option Nat := none
  /-- The place of the agent that was started last. -/
  agent : Option Nat := none
  /-- The node as a whole, if it was started as one. -/
  whole : Option RunningNode := none

namespace Console

/-- What an operator may ask for in vain. -/
inductive Absence
  /-- A log writer. -/
  | writer
  | subscription
  | scheduler
  | agent
  | wholeNode
  | lease
  deriving DecidableEq, Repr

/-- Why a console refuses. -/
inductive Failure
  /-- An operation was refused. -/
  | refused (cause : Error)
  /-- A node reports a fault. -/
  | faulty (cause : Fault)
  /-- A log cannot be written. -/
  | unwritten (cause : RunnerError)
  /-- A node cannot be set up. -/
  | unusable (reason : String)
  /-- Something is not there. -/
  | missing (what : Absence)
  deriving DecidableEq, Repr

end Console

/-- A cluster in the hands of an operator. -/
structure Console where
  cluster : Cluster := {}
  /-- The nodes by name, in the order they were named. -/
  stations : List (String × Station) := []
  /-- The names of runs and workspaces. -/
  aliases : Aliases := {}
  /-- The subscriptions: the places of their nodes and their generations, by the names of node and
  subscriber. -/
  subscriptions : List ((String × String) × (Nat × Nat)) := []
  /-- The log writers with the places of their nodes, by name. -/
  writers : List (String × (Nat × LogWriter)) := []

namespace Console

/-- What a name stands for. -/
def find? {κ α : Type} [BEq κ] (table : List (κ × α)) (name : κ) : Option α :=
  (table.find? fun e => e.1 == name).map (·.2)

/-- The table without a name. -/
def erase {κ α : Type} [BEq κ] (table : List (κ × α)) (name : κ) : List (κ × α) :=
  table.filter fun e => !(e.1 == name)

/-- The table in which a name stands for something new. -/
def insert {κ α : Type} [BEq κ] (table : List (κ × α)) (name : κ) (value : α) : List (κ × α) :=
  erase table name ++ [(name, value)]

/-- A step of a console. -/
abbrev Step (α : Type) := ExceptT Failure (StateM Console) α

/-- A step of the cluster. -/
def within {α : Type} (x : Cluster.Step α) : Step α :=
  fun c =>
    let r := x c.cluster
    (.ok r.1, { c with cluster := r.2 })

/-- A value, or the refusal of an operation. -/
def accept {α : Type} : Except Error α → Step α
  | .ok a => return a
  | .error e => throw (.refused e)

/-- A value, or the fault of a node. -/
def trust {α : Type} : Except Fault α → Step α
  | .ok a => return a
  | .error f => throw (.faulty f)

/-- A value that is there. -/
def demand {α : Type} (what : Absence) : Option α → Step α
  | some a => return a
  | none => throw (.missing what)

/-- The store. -/
def store : Step Store := do
  return (← get).cluster.ledger.store

/-- Let a name stand for a run or a workspace. -/
def baptize (name : Option String) (id : String) : Step Unit := do
  if let some name := name then modify fun c => { c with aliases := c.aliases.add name id }

/-! ## Nodes -/

/-- Let a node have a name. -/
def enroll (name : String) (s : Station) : Step Unit :=
  modify fun c => { c with stations := insert c.stations name s }

/-- Change what the operator knows of a node. -/
def reviseStation (name : String) (f : Station → Station) : Step Unit :=
  modify fun c => { c with
    stations := c.stations.map fun e => if e.1 = name then (e.1, f e.2) else e }

/-- Add a node with a broker. -/
def addNode (name channel : String) (hasGetters isListening : Bool) : Step Station := do
  let s : Station := { node := ← within (Cluster.addNode channel hasGetters isListening) }
  enroll name s
  return s

/-- Start a whole node. -/
def addWhole (name : String) (setup : NodeSetup) : Step Unit := do
  match ← within (Cluster.startNode setup) with
  | .error reason => throw (.unusable reason)
  | .ok n =>
    enroll name { node := n.node, scheduler := n.scheduler, agent := n.agent, whole := some n }

/-- The node with a name, added if need be. -/
def station (name : String) : Step Station := do
  match find? (← get).stations name with
  | some s => return s
  | none => addNode name defaultChannel true true

/-- Stop a whole node. The answer is whether it ran, and whether it has come to its end. -/
def shutDown (name : String) : Step (Bool × Bool) := do
  let whole ← demand .wholeNode (← station name).whole
  let wasRunning := (← get).cluster.isRunning whole
  within (Cluster.stopNode whole)
  reviseStation name fun s => { node := s.node }
  return (wasRunning, !(← get).cluster.isRunning whole)

/-- Stop the listener of a node. -/
def stopListener (name : String) : Step Unit := do
  within (Cluster.stopListener (← station name).node)

/-! ## Operations -/

/-- Carry out an operation on a node. -/
def serve {α : Type} (name : String) (x : Service α) : Step α := do
  accept (← within (Cluster.serve (← station name).node x))

/-- Change the store without telling anybody. -/
def amend {α : Type} (change : Store → Except Error (α × Store)) : Step α := do
  let (a, store) ← accept (change (← store))
  modify fun c => { c with
    cluster := { c.cluster with ledger := { c.cluster.ledger with store } } }
  return a

/-- Publish an event on a node, several times. -/
def publish (name : String) (e : Event) (times : Nat) : Step Unit := do
  let s ← station name
  (List.range times).forM fun _ => within (Cluster.publish s.node e)

/-- Send a text on a channel. -/
def notify (channel text : String) : Step Unit := do
  within (Cluster.setTransport (← trust ((← get).cluster.transport.notify channel text)))

/-- Lose or regain the connection of the transport. -/
def setOffline (value : Bool) : Step Unit := do
  within (Cluster.setTransport ((← get).cluster.transport.setOffline value))

/-- The names behind a dollar sign: those of runs and workspaces, and those of brokers. -/
def placeholders (c : Console) : Aliases :=
  ⟨c.aliases.table ++ c.stations.filterMap fun e =>
    (c.cluster.members[e.2.node]?).map fun m => ("pid-" ++ e.1, m.broker.id)⟩

/-! ## Subscriptions -/

/-- Subscribe on a node. -/
def subscribe (name subscriber : String) : Step Unit := do
  let s ← station name
  let session ← trust (← within (Cluster.openSession s.node subscriber))
  modify fun c => { c with
    subscriptions := insert c.subscriptions (name, subscriber) (s.node, session.generation) }

/-- Ask for the end of a subscription. The answer is whether there is one. -/
def unsubscribe (name subscriber : String) : Step Bool := do
  match find? (← get).subscriptions (name, subscriber) with
  | none => return false
  | some (node, generation) =>
    within (Cluster.wake (.reaper node ⟨subscriber, generation⟩))
    return true

/-- Throw away the inbox of a subscription. -/
def abandon (name subscriber : String) : Step Unit := do
  if let some (node, generation) := find? (← get).subscriptions (name, subscriber) then
    within (Cluster.reviseBroker node (·.dropInbox generation))
    modify fun c => { c with subscriptions := erase c.subscriptions (name, subscriber) }

/-- Take all events out of the inbox of a subscription. The answer also tells whether nothing more will
come. -/
def drain (name subscriber : String) : Step (List Event × Bool) := do
  let (node, generation) ← demand .subscription
    (find? (← get).subscriptions (name, subscriber))
  let member ← demand .subscription (← get).cluster.members[node]?
  let (events, broker) := member.broker.takeAll generation
  within (Cluster.reviseBroker node fun _ => broker)
  return (events, broker.hasEnded generation)

/-! ## Schedulers, agents and leases -/

/-- Start a scheduler on a node. -/
def startScheduler (name : String) (reseed base limit : Nat) : Step Unit := do
  let place ← within (Cluster.addScheduler (← station name).node reseed base limit)
  reviseStation name fun s => { s with scheduler := some place }

/-- Stop the scheduler of a node, and report the fault that ended it, if any. -/
def stopScheduler (name : String) : Step Unit := do
  let place ← demand .scheduler (← station name).scheduler
  within (Cluster.dismissScheduler place)
  within Cluster.rest
  reviseStation name fun s => { s with scheduler := none }
  if let some fault := (← get).cluster.schedulerFault? place then throw (.faulty fault)

/-- Start an agent on a node. -/
def startAgent (name id : String) (concurrency : Nat) (runner : ScriptedRunner) : Step Unit := do
  let place ← within (Cluster.addAgent (← station name).node id concurrency runner)
  reviseStation name fun s => { s with agent := some place }

/-- Stop the agent of a node. The answer is how many jobs are left. -/
def stopAgent (name : String) : Step Nat := do
  let place ← demand .agent (← station name).agent
  within (Cluster.quitAgent place)
  within Cluster.rest
  reviseStation name fun s => { s with agent := none }
  return (← get).cluster.inFlight place

/-- How many phases the agent of a node has started. -/
def executed (name : String) : Step Nat := do
  let place ← demand .agent (← station name).agent
  return (((← get).cluster.agents[place]?).map (·.executed)).getD 0

/-- Give back a lease. -/
def releaseLease (holder : String) : Step Unit := do
  if (← get).cluster.leases.holders.contains (.guest holder) then
    within (Cluster.releaseLease holder)
  else throw (.missing .lease)

/-! ## Log writers -/

/-- Begin to write the log of a phase. -/
def openWriter (name writer run : String) (phase : PhaseKind) : Step Unit := do
  let s ← station name
  modify fun c => { c with writers := insert c.writers writer (s.node, { run, phase }) }

/-- A step of a log writer. -/
def withWriter {ε α : Type} (writer : String) (blame : ε → Failure)
    (x : LogWriter.Step ε Ledger α) : Step α := do
  let (node, w) ← demand .writer (find? (← get).writers writer)
  let r := x (w, (← get).cluster.ledger)
  modify fun c => { c with
    cluster := { c.cluster with ledger := r.2.2 }
    writers := insert c.writers writer (node, r.2.1) }
  within (Cluster.publishAnnounced node)
  match r.1 with
  | .ok a => return a
  | .error e => throw (blame e)

/-- Append output to a log. -/
def write (writer : String) (data : Text.Bytes) : Step Unit :=
  withWriter writer .unwritten (LogWriter.write Service.putChunk data)

/-- Close a log. -/
def closeWriter (writer : String) : Step Unit :=
  withWriter writer .refused (LogWriter.close Service.putChunk)

/-- Where the next chunk of a writer begins. -/
def writerOffset? (c : Console) (writer : String) : Option Int :=
  (find? c.writers writer).map (·.2.offset)

end Console

end Provision
