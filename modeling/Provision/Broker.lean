import Provision.Notification
import Provision.Store
import Provision.Transport

/-!
# The broker

Each node has a broker, which hands events to the subscribers of the node and tells the other nodes
about them.

A subscriber has a name, unique among those registered, and an inbox of `Broker.capacity` events. The
broker never waits: a subscriber whose inbox is full when an event comes loses its registration at
that event, and so does one whose inbox is gone. What is in the inbox can still be taken out; then
the subscription has ended.

Every subscription has a number of its own, its generation. A registration is given up by name and
generation, so that giving up an old one never touches a later one of the same name.
-/

namespace Provision

/-- A registered name and the generation it belongs to. -/
structure Registration where
  /-- The name of the subscriber. -/
  name : String
  /-- The generation of the subscription. -/
  generation : Nat
  deriving DecidableEq, Repr

/-- The events that a subscription has yet to take out, oldest first. -/
structure Inbox where
  /-- The generation of the subscription. -/
  generation : Nat
  events : List Event := []
  deriving DecidableEq, Repr

/-- The broker of a node. -/
structure Broker where
  /-- The name of the broker, unique among nodes. -/
  id : String
  /-- The channel that the nodes share. -/
  channel : String
  /-- The relations whose payloads can be loaded here. -/
  getters : List String := []
  /-- Who is registered, in the order of registration. -/
  registrations : List Registration := []
  /-- The inboxes that somebody may still take events from. -/
  inboxes : List Inbox := []
  /-- The generation of the last subscription. -/
  lastGeneration : Nat := 0
  deriving Repr

namespace Broker

/-- How many events an inbox holds. -/
def capacity : Nat :=
  16

/-- The relations of all events. -/
def relations : List String :=
  ["organization", "workspace", "run", "chunk"]

/-- The inbox of a generation. -/
def inbox? (b : Broker) (generation : Nat) : Option Inbox :=
  b.inboxes.find? fun i => i.generation == generation

/-- Whether a generation is still registered. -/
def isRegistered (b : Broker) (generation : Nat) : Bool :=
  b.registrations.any fun r => r.generation == generation

/-- Whether a subscription has nothing more to give. -/
def hasEnded (b : Broker) (generation : Nat) : Bool :=
  !b.isRegistered generation && ((b.inbox? generation).map (·.events)).getD [] == []

/-- Register a name, with an empty inbox. -/
def subscribe (b : Broker) (name : String) : Except Fault (Nat × Broker) :=
  if b.registrations.any fun r => r.name == name then .error (.subscriptionExists name)
  else
    let generation := b.lastGeneration + 1
    .ok (generation, { b with
      lastGeneration := generation
      registrations := b.registrations ++ [⟨name, generation⟩]
      inboxes := b.inboxes ++ [⟨generation, []⟩] })

/-- Give up a registration. -/
def unregister (b : Broker) (name : String) (generation : Nat) : Broker :=
  { b with registrations := b.registrations.filter fun r => decide (r ≠ ⟨name, generation⟩) }

/-- Throw away the inbox of a subscription. -/
def dropInbox (b : Broker) (generation : Nat) : Broker :=
  { b with inboxes := b.inboxes.filter fun i => i.generation != generation }

/-- Take the oldest event out of an inbox. -/
def receive (b : Broker) (generation : Nat) : Option Event × Broker :=
  match b.inbox? generation with
  | some ⟨_, e :: rest⟩ =>
    (some e, { b with
      inboxes := b.inboxes.map fun i =>
        if i.generation = generation then { i with events := rest } else i })
  | _ => (none, b)

/-- Take all events out of an inbox. -/
def takeAll (b : Broker) (generation : Nat) : List Event × Broker :=
  match b.inbox? generation with
  | some i =>
    (i.events, { b with
      inboxes := b.inboxes.map fun i =>
        if i.generation = generation then { i with events := [] } else i })
  | none => ([], b)

/-- Whether a registration has room for one more event. -/
def hasRoom (b : Broker) (r : Registration) : Bool :=
  match b.inbox? r.generation with
  | some i => decide (i.events.length < capacity)
  | none => false

/-- Hand an event to every subscriber that has room, and give up the registrations of the others. -/
def deliver (b : Broker) (e : Event) : Broker :=
  let kept := b.registrations.filter b.hasRoom
  { b with
    registrations := kept
    inboxes := b.inboxes.map fun i =>
      if kept.any fun r => r.generation == i.generation then { i with events := i.events ++ [e] }
      else i }

/-- Hand an event to the subscribers of the node and, unless it is local, tell the other nodes. What
cannot be sent is not sent later. -/
def publish (b : Broker) (t : Transport) (e : Event) : Broker × Transport :=
  let b := b.deliver e
  if e.isLocal then (b, t)
  else
    match t.notify b.channel (Notification.ofEvent b.id e).encode with
    | .ok t => (b, t)
    | .error _ => (b, t)

end Broker

/-- The payload of a relation with an identifier, as it is stored. -/
def Store.load (s : Store) (relation id : String) : Except Error Payload :=
  if relation = "organization" then
    match s.organization? id with
    | some org => .ok (.organization org)
    | none => .error (.organizationNotFound id)
  else if relation = "workspace" then
    match s.workspace? id with
    | some ws => .ok (.workspace ws)
    | none => .error (.workspaceNotFound id)
  else if relation = "run" then
    match s.run? id with
    | some run => .ok (.run run)
    | none => .error (.runNotFound id)
  else
    match Text.int64? id.toList with
    | none => .error (.validation "chunk_id" ("not a chunk ID: " ++ id))
    | some n =>
      match s.chunk? n with
      | some chunk => .ok (.chunk chunk)
      | none => .error (.chunkNotFound n)

namespace Broker

/-- The event that a message of another node tells of: none if the message is the broker's own, or
not understood, or if what it tells of can no longer be loaded. -/
def eventOf? (b : Broker) (s : Store) (n : Notification) : Option Event :=
  if n.sender = b.id then none
  else
    match EventType.ofParts? n.relation n.action with
    | none => none
    | some type =>
      if type.isDeletion then some { type, payload := .deleted n.relation n.id }
      else if b.getters.contains n.relation then
        match s.load n.relation n.id with
        | .ok payload => some { type, payload }
        | .error _ => none
      else none

/-- Take in the text of a message of another node. -/
def hear (b : Broker) (s : Store) (text : String) : Broker :=
  match (Notification.decode? text).bind (b.eventOf? s) with
  | some e => b.deliver e
  | none => b

end Broker

end Provision
