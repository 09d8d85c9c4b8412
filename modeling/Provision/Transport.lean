import Provision.Fault

/-!
# The transport of notifications

Messages are broadcast on named channels. Streams read them in the order they were sent. The last
`Transport.depth` messages of all channels are kept; a stream that fell behind goes on with the
oldest of them.

The transport can be offline. Then nothing can be sent, no stream can be opened, and open streams
find the connection lost, but keep their place. Going offline sends one empty message on the channel
without a name, which wakes the streams.
-/

namespace Provision

/-- A message on a channel. -/
structure Message where
  channel : String
  /-- The text. -/
  payload : String
  deriving DecidableEq, Repr

/-- A broadcast medium. -/
structure Transport where
  /-- All messages, in the order they were sent. -/
  sent : Array Message := #[]
  /-- Whether the connection is down. -/
  isOffline : Bool := false

/-- A reader of one channel. -/
structure Stream where
  channel : String
  /-- The place of the message to look at next. -/
  next : Nat
  deriving DecidableEq, Repr

/-- What a stream finds. -/
inductive Received
  /-- A message of its channel. -/
  | payload (text : String)
  /-- No connection. -/
  | lost
  /-- No message yet. -/
  | waiting
  deriving DecidableEq, Repr

namespace Transport

/-- How many messages are kept. -/
def depth : Nat :=
  1024

/-- The kind of transport. -/
def kind : String :=
  "memory"

/-- What is reported while the connection is down. -/
def offlineFault : Fault :=
  .transport "transport offline"

/-- The transport after a message was broadcast. -/
def broadcast (t : Transport) (m : Message) : Transport :=
  { t with sent := t.sent.push m }

/-- Send a text on a channel. -/
def notify (t : Transport) (channel payload : String) : Except Fault Transport :=
  if t.isOffline then .error offlineFault else .ok (t.broadcast ⟨channel, payload⟩)

/-- Open a stream, which reads what is sent from now on. -/
def listen (t : Transport) (channel : String) : Except Fault Stream :=
  if t.isOffline then .error offlineFault else .ok ⟨channel, t.sent.size⟩

/-- Lose or regain the connection. -/
def setOffline (t : Transport) (value : Bool) : Transport :=
  let t := { t with isOffline := value }
  if value then t.broadcast ⟨"", ""⟩ else t

/-- The place of the oldest message kept. -/
def oldest (t : Transport) : Nat :=
  t.sent.size - depth

/-- The first message of a channel from a place on, and the place after it. -/
def scan (sent : Array Message) (channel : String) (place : Nat) : Option String × Nat :=
  if h : place < sent.size then
    if sent[place].channel = channel then (some sent[place].payload, place + 1)
    else scan sent channel (place + 1)
  else (none, place)
termination_by sent.size - place

/-- What a stream finds next, and the stream after that. -/
def receive (t : Transport) (s : Stream) : Received × Stream :=
  if t.isOffline then (.lost, s)
  else
    match scan t.sent s.channel (max s.next t.oldest) with
    | (some text, next) => (.payload text, { s with next })
    | (none, next) => (.waiting, { s with next })

/-- What a stream that has been waiting finds, and the stream after that. What it waited for is handed
over even if the connection was lost in the meantime. -/
def resume (t : Transport) (s : Stream) : Received × Stream :=
  if s.next < t.oldest then t.receive { s with next := t.oldest }
  else
    match t.sent[s.next]? with
    | some m =>
      let s := { s with next := s.next + 1 }
      if m.channel = s.channel then (.payload m.payload, s) else t.receive s
    | none => (.waiting, s)

end Transport

end Provision
