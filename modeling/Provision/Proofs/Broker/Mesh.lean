import Mathlib.Logic.Function.Basic
import Mathlib.Logic.Relation
import Provision.Proofs.Broker.Arrival
import Provision.Proofs.Broker.Hub
import Provision.Proofs.Broker.Stream
import Provision.Proofs.Store.Operation

/-!
# Events between nodes

A `Mesh` is any number of nodes on one transport, with one store behind them. Any node publishes, and
begins and ceases to listen, at any time; the store changes and other channels are used meanwhile. A
listener takes a message, makes an event of it with the store as it is then, and hands the event to the
subscribers of its node. The connection stays up, and no listener falls so far behind that messages are
gone.

* `Mesh.Fits`: what is known of a listener, and `Mesh.Sound`: of the whole. Every move keeps it.
* **`Mesh.relay`**: one message for each event that is not local, and for each listener the events of the
  others, in order and once, as `Event.Survives` says.
* `Mesh.altered`: what does not survive.
-/

namespace Provision

/-- Nodes on a channel, each with the name of its broker and the relations it can load. -/
structure Layout (ι : Type) where
  channel : String
  pid : ι → String
  getters : ι → List String
  distinct : Function.Injective pid

/-- How an event came to the subscribers of a node. -/
inductive Delivery
  | own (e : Event)
  | relayed (e : Event)

namespace Delivery

def event : Delivery → Event
  | own e => e
  | relayed e => e

def own? : Delivery → Option Event
  | own e => some e
  | relayed _ => none

def relayed? : Delivery → Option Event
  | own _ => none
  | relayed e => some e

end Delivery

/-- A node that listens. -/
structure Listener where
  stream : Stream
  /-- How many messages had been sent when it began to listen. -/
  since : ℕ
  /-- How many events had been handed out on the node by then. -/
  start : ℕ
  /-- The store as it was at each message taken. -/
  readings : List Store := []
  /-- An event made of the last message and not handed out yet. -/
  pending : Option Event := none

/-- A node. -/
structure Peer (τ : Type) where
  hub : Hub τ
  /-- What was handed to the subscribers. -/
  deliveries : List Delivery := []
  listener : Option Listener := none

/-- Nodes with a transport and a store between them. -/
structure Mesh (ι τ : Type) where
  peer : ι → Peer τ
  store : Store
  transport : Transport
  /-- Everything published, and by whom. -/
  published : List (ι × Event) := []

namespace Layout

variable {ι τ : Type} (L : Layout ι)

/-- The message about an event. -/
def message (x : ι × Event) : Message :=
  ⟨L.channel, (Notification.ofEvent (L.pid x.1) x.2).encode⟩

/-- What a node makes of an event with a store. -/
def arrival [DecidableEq ι] (i : ι) (x : (ι × Event) × Store) : Option Event :=
  if x.1.1 = i then none else x.1.2.arrival (L.getters i) x.2

/-- Whether nothing has happened yet. -/
structure Starts (m : Mesh ι τ) : Prop where
  peer : ∀ i, m.peer i = { hub := Hub.new τ (L.pid i) L.channel (L.getters i) }
  online : m.transport.isOffline = false
  logged : m.store.Logged
  published : m.published = []

end Layout

namespace Mesh

variable {ι τ : Type} [DecidableEq ι]

/-- The events that are not local. -/
def carried (m : Mesh ι τ) : List (ι × Event) :=
  m.published.filter fun x => !x.2.isLocal

/-- The mesh with a node changed. -/
def set (m : Mesh ι τ) (i : ι) (x : Peer τ) : Mesh ι τ :=
  { m with peer := Function.update m.peer i x }

/-- A node publishes an event. -/
def publish (m : Mesh ι τ) (i : ι) (e : Event) : Mesh ι τ :=
  let x := m.peer i
  { m.set i { x with
      hub := x.hub.publish m.transport e
      deliveries := x.deliveries ++ [.own e] } with
    transport := (x.hub.broker.publish m.transport e).2
    published := m.published ++ [(i, e)] }

/-- A node begins to listen. -/
def listen (m : Mesh ι τ) (i : ι) (s : Stream) : Mesh ι τ :=
  m.set i { m.peer i with
    listener := some ⟨s, m.carried.length, (m.peer i).deliveries.length, [], none⟩ }

/-- A listener looks for a message, and makes an event of the one it finds. -/
def read (m : Mesh ι τ) (i : ι) (z : Listener) (found : Received × Stream) : Mesh ι τ :=
  let x := m.peer i
  match found with
  | (.payload text, stream) =>
    m.set i { x with listener := some { z with
      stream
      readings := z.readings ++ [m.store]
      pending := x.hub.broker.told m.store text } }
  | (_, stream) => m.set i { x with listener := some { z with stream } }

/-- A listener hands out the event it made. -/
def hand (m : Mesh ι τ) (i : ι) (z : Listener) (e : Event) : Mesh ι τ :=
  let x := m.peer i
  m.set i { x with
    hub := x.hub.deliver e
    deliveries := x.deliveries ++ [.relayed e]
    listener := some { z with pending := none } }

/-- What can happen. A listener's node may publish between the taking of a message and the handing out of
its event, so these are two moves; `Hub.hear` is both at once. -/
inductive Move (L : Layout ι) (m : Mesh ι τ) : Mesh ι τ → Prop
  | publish (i : ι) (e : Event) : Move L m (m.publish i e)
  | listen (i : ι) {s : Stream} :
      m.transport.listen (m.peer i).hub.broker.channel = .ok s → Move L m (m.listen i s)
  | cease (i : ι) : Move L m (m.set i { m.peer i with listener := none })
  | read (i : ι) {z : Listener} {found : Received × Stream} : (m.peer i).listener = some z →
      z.pending = none → m.transport.oldest ≤ z.stream.next →
      found = m.transport.receive z.stream ∨ found = m.transport.resume z.stream →
      Move L m (m.read i z found)
  | hand (i : ι) {z : Listener} {e : Event} : (m.peer i).listener = some z →
      z.pending = some e → Move L m (m.hand i z e)
  | attend (i : ι) {h : Hub τ} : (m.peer i).hub.Attends h →
      Move L m (m.set i { m.peer i with hub := h })
  | change {op : Store.Operation} {p : Payload} {s : Store} : op.perform m.store = .ok (p, s) →
      Move L m { m with store := s }
  /-- Somebody uses another channel. -/
  | other {msg : Message} : msg.channel ≠ L.channel →
      Move L m { m with transport := m.transport.broadcast msg }

/-! ## What is known of a listener -/

/-- What holds of a listener, from what was sent and what its node has handed out. -/
structure Fits (L : Layout ι) (t : Transport) (carried : List (ι × Event)) (i : ι)
    (deliveries : List Delivery) (z : Listener) : Prop where
  channel : z.stream.channel = L.channel
  place : z.stream.next ≤ t.sent.size
  start : z.start ≤ deliveries.length
  taken : z.since + z.readings.length ≤ carried.length
  /-- Ahead of it are the messages it has not taken. -/
  ahead : t.onChannel L.channel z.stream.next =
    (carried.drop (z.since + z.readings.length)).map L.message
  /-- What it made of the messages it has taken was handed out, but for the last one. -/
  relayed : (deliveries.drop z.start).filterMap Delivery.relayed? ++ z.pending.toList =
    ((carried.drop z.since).zip z.readings).filterMap (L.arrival i)
  readings : ∀ s ∈ z.readings, s.Logged

namespace Fits

variable {L : Layout ι} {t : Transport} {carried : List (ι × Event)} {i j : ι}
  {deliveries : List Delivery} {z : Listener} {e : Event}

theorem zip_append_left {α β : Type} {l : List α} {r : List β} (h : r.length ≤ l.length)
    (l' : List α) : (l ++ l').zip r = l.zip r := by
  induction r generalizing l with
  | nil => simp
  | cons b r ih =>
    cases l with
    | nil => simp at h
    | cons a l => simp [ih (Nat.le_of_succ_le_succ h)]

theorem zip_concat {α β : Type} {l l' : List α} {r : List β} {a : α} (h : l.drop r.length = a :: l')
    (b : β) : l.zip (r ++ [b]) = l.zip r ++ [(a, b)] := by
  induction r generalizing l with
  | nil => simp_all
  | cons c r ih =>
    cases l with
    | nil => simp at h
    | cons d l => simp [ih h]

theorem send (h : Fits L t carried i deliveries z) (x : ι × Event) :
    Fits L (t.broadcast (L.message x)) (carried ++ [x]) i deliveries z where
  channel := h.channel
  place := by
    have := h.place
    simp only [Transport.broadcast, Array.size_push]
    omega
  start := h.start
  taken := by
    have := h.taken
    rw [List.length_append]
    omega
  ahead := by
    rw [Transport.onChannel_broadcast h.place, h.ahead, List.drop_append_of_le_length h.taken,
      List.map_append]
    simp [Layout.message]
  relayed := by
    have hlen : z.readings.length ≤ (carried.drop z.since).length := by
      have := h.taken
      rw [List.length_drop]
      omega
    rw [h.relayed, List.drop_append_of_le_length (by have := h.taken; omega), zip_append_left hlen]
  readings := h.readings

theorem other (h : Fits L t carried i deliveries z) {msg : Message} (hm : msg.channel ≠ L.channel) :
    Fits L (t.broadcast msg) carried i deliveries z where
  channel := h.channel
  place := by
    have := h.place
    simp only [Transport.broadcast, Array.size_push]
    omega
  start := h.start
  taken := h.taken
  ahead := by rw [Transport.onChannel_broadcast h.place, if_neg hm, List.append_nil, h.ahead]
  relayed := h.relayed
  readings := h.readings

theorem own (h : Fits L t carried i deliveries z) (e : Event) :
    Fits L t carried i (deliveries ++ [.own e]) z where
  channel := h.channel
  place := h.place
  start := h.start.trans (by simp)
  taken := h.taken
  ahead := h.ahead
  relayed := by
    have hnone : [Delivery.own e].filterMap Delivery.relayed? = [] := rfl
    rw [List.drop_append_of_le_length h.start, List.filterMap_append, hnone, List.append_nil,
      h.relayed]
  readings := h.readings

theorem hand (h : Fits L t carried i deliveries z) (he : z.pending = some e) :
    Fits L t carried i (deliveries ++ [.relayed e]) { z with pending := none } where
  channel := h.channel
  place := h.place
  start := h.start.trans (by simp)
  taken := h.taken
  ahead := h.ahead
  relayed := by
    rw [← h.relayed, he, List.drop_append_of_le_length h.start, List.filterMap_append]
    simp [Delivery.relayed?]
  readings := h.readings

theorem listen (L : Layout ι) (carried : List (ι × Event)) (i : ι) (deliveries : List Delivery) :
    Fits L t carried i deliveries
      ⟨⟨L.channel, t.sent.size⟩, carried.length, deliveries.length, [], none⟩ where
  channel := rfl
  place := Nat.le_refl _
  start := Nat.le_refl _
  taken := Nat.le_refl _
  ahead := by simp [Transport.onChannel_eq_nil]
  relayed := by simp
  readings _ hs := by cases hs

theorem take (h : Fits L t carried i deliveries z) {next : ℕ} {x : ι × Event} {s : Store}
    {rest : List (ι × Event)} (hnext : next ≤ t.sent.size)
    (hx : carried.drop (z.since + z.readings.length) = x :: rest)
    (hahead : t.onChannel L.channel next = rest.map L.message) (hp : z.pending = none)
    (hs : s.Logged) : Fits L t carried i deliveries { z with
      stream := { z.stream with next }
      readings := z.readings ++ [s]
      pending := L.arrival i (x, s) } where
  channel := h.channel
  place := hnext
  start := h.start
  taken := by
    have := congrArg List.length hx
    simp only [List.length_drop, List.length_cons, List.length_append, List.length_nil] at this ⊢
    omega
  ahead := by
    rw [hahead, List.length_append, ← Nat.add_assoc, List.length_singleton, ← List.drop_drop, hx,
      List.drop_succ_cons, List.drop_zero]
  relayed := by
    have hrelayed := h.relayed
    rw [hp, Option.toList_none, List.append_nil] at hrelayed
    rw [zip_concat (by rw [List.drop_drop, hx]), List.filterMap_append, ← hrelayed]
    cases hr : L.arrival i (x, s) <;> simp [hr]
  readings s' hs' := by
    rcases List.mem_append.mp hs' with hs' | hs'
    · exact h.readings s' hs'
    · exact List.mem_singleton.mp hs' ▸ hs

theorem waiting_iff (h : Fits L t carried i deliveries z) (ht : t.isOffline = false)
    (hlag : t.oldest ≤ z.stream.next) : (t.receive z.stream).1 = .waiting ↔
      z.readings.length = (carried.drop z.since).length := by
  have hahead := congrArg List.length h.ahead
  have htaken := h.taken
  simp only [List.length_map, List.length_drop] at hahead ⊢
  rcases Transport.receive_cases ht hlag h.place with ⟨_, _, hr, -, hsome⟩ | ⟨hr, hnone⟩
  · rw [h.channel] at hsome
    rw [hsome, List.length_cons] at hahead
    simp only [hr, reduceCtorEq, false_iff]
    omega
  · rw [h.channel] at hnone
    rw [hnone, List.length_nil] at hahead
    simp only [hr, true_iff]
    omega

end Fits

/-! ## What is known of the whole -/

/-- What holds of a node, from what was sent and what was published. -/
structure Settled (L : Layout ι) (m : Mesh ι τ) (i : ι) (x : Peer τ) : Prop where
  id : x.hub.broker.id = L.pid i
  channel : x.hub.broker.channel = L.channel
  getters : x.hub.broker.getters = L.getters i
  delivered : x.hub.delivered = x.deliveries.map Delivery.event
  own : x.deliveries.filterMap Delivery.own? = (m.published.filter fun p => p.1 = i).map Prod.snd
  listener : ∀ z, x.listener = some z → Fits L m.transport m.carried i x.deliveries z

/-- What holds of nodes that began with the messages `before` on their channel. -/
structure Sound (L : Layout ι) (before : List Message) (m : Mesh ι τ) : Prop where
  online : m.transport.isOffline = false
  logged : m.store.Logged
  /-- One message for each event that is not local, in the order of publication. -/
  sent : m.transport.onChannel L.channel 0 = before ++ m.carried.map L.message
  peer : ∀ i, Settled L m i (m.peer i)

variable {L : Layout ι} {before : List Message} {m m' m₀ : Mesh ι τ} {i j : ι} {x : Peer τ}
  {z : Listener} {e : Event}

theorem sound_of_starts (h : L.Starts m) : m.Sound L (m.transport.onChannel L.channel 0) where
  online := h.online
  logged := h.logged
  sent := by simp [carried, h.published]
  peer i := by
    rw [h.peer i]
    exact ⟨rfl, rfl, rfl, rfl, by rw [h.published]; rfl, fun z hz => by cases hz⟩

theorem Settled.congr (hx : Settled L m i x) (ht : m'.transport = m.transport)
    (hp : m'.published = m.published) : Settled L m' i x :=
  ⟨hx.id, hx.channel, hx.getters, hx.delivered, hp ▸ hx.own,
    by simpa only [carried, ht, hp] using hx.listener⟩

theorem Sound.set (hm : m.Sound L before) (hx : Settled L m i x) : (m.set i x).Sound L before where
  online := hm.online
  logged := hm.logged
  sent := hm.sent
  peer := (Function.forall_update_iff m.peer (p := Settled L (m.set i x))).mpr
    ⟨hx.congr rfl rfl, fun j _ => (hm.peer j).congr rfl rfl⟩

theorem Sound.listen (hm : m.Sound L before) {s : Stream}
    (hs : m.transport.listen (m.peer i).hub.broker.channel = .ok s) :
    (m.listen i s).Sound L before := by
  have hx := hm.peer i
  rw [Transport.listen, hm.online, if_neg Bool.false_ne_true, hx.channel] at hs
  cases hs
  refine hm.set ⟨hx.id, hx.channel, hx.getters, hx.delivered, hx.own, fun z hz => ?_⟩
  cases hz
  exact Fits.listen L _ i _

theorem Sound.hand (hm : m.Sound L before) (hz : (m.peer i).listener = some z)
    (he : z.pending = some e) : (m.hand i z e).Sound L before := by
  have hx := hm.peer i
  refine hm.set ⟨hx.id, hx.channel, hx.getters, ?_, ?_, fun z' hz' => ?_⟩
  · simp [Hub.deliver, hx.delivered, Delivery.event]
  · simp [Delivery.own?, hx.own]
  · cases hz'
    exact (hx.listener z hz).hand he

theorem Settled.told_message (hx : Settled L m i x) (s : Store) (y : ι × Event) :
    x.hub.broker.told s (L.message y).payload = L.arrival i (y, s) := by
  rw [Layout.message, Broker.told_encode, hx.id, hx.getters, Layout.arrival]
  exact if_congr L.distinct.eq_iff rfl rfl

/-- **A listener takes a message.** Of its own it makes no event, of that of another node what arrives
of it. -/
theorem Sound.read (hm : m.Sound L before) {found : Received × Stream}
    (hz : (m.peer i).listener = some z) (hp : z.pending = none)
    (hlag : m.transport.oldest ≤ z.stream.next)
    (hfound : found = m.transport.receive z.stream ∨ found = m.transport.resume z.stream) :
    (m.read i z found).Sound L before := by
  have hx := hm.peer i
  have hfits := hx.listener z hz
  obtain rfl : found = m.transport.receive z.stream := by
    rcases hfound with h | h
    · exact h
    · rw [h, Transport.resume_eq_receive hm.online hlag]
  rcases Transport.receive_cases hm.online hlag hfits.place with
    ⟨text, next, hreceive, hnext, hahead⟩ | ⟨hreceive, hnone⟩
  · -- what is found is the first message ahead, hence the one about the first event not taken
    rw [hfits.channel, hfits.ahead] at hahead
    obtain ⟨y, rest, hy, hmessage, hrest⟩ := List.map_eq_cons_iff.mp hahead
    have htext : (L.message y).payload = text := congrArg Message.payload hmessage
    have htold : (m.peer i).hub.broker.told m.store text = L.arrival i (y, m.store) :=
      htext ▸ hx.told_message m.store y
    rw [hreceive]
    refine hm.set ⟨hx.id, hx.channel, hx.getters, hx.delivered, hx.own, fun z' hz' => ?_⟩
    cases hz'
    rw [htold]
    exact hfits.take hnext hy hrest.symm hp hm.logged
  · rw [hreceive]
    refine hm.set ⟨hx.id, hx.channel, hx.getters, hx.delivered, hx.own, fun z' hz' => ?_⟩
    cases hz'
    rw [hfits.channel] at hnone
    exact { hfits with
      place := Nat.le_refl _
      ahead := by rw [← hfits.ahead, hnone, Transport.onChannel_eq_nil (Nat.le_refl _)] }

theorem Sound.attend (hm : m.Sound L before) {h : Hub τ} (ha : (m.peer i).hub.Attends h) :
    (m.set i { m.peer i with hub := h }).Sound L before := by
  have hx := hm.peer i
  obtain ⟨hdelivered, hid, hchannel, hgetters⟩ := ha.kept
  exact hm.set ⟨hid.trans hx.id, hchannel.trans hx.channel, hgetters.trans hx.getters,
    hdelivered.trans hx.delivered, hx.own, hx.listener⟩

theorem carried_publish (m : Mesh ι τ) (i : ι) (e : Event) :
    (m.publish i e).carried = m.carried ++ if e.isLocal then [] else [(i, e)] := by
  simp only [carried, publish, List.filter_append]
  cases hl : e.isLocal <;> simp [hl]

/-- A message is sent if and only if the event is not local. -/
theorem transport_publish (hm : m.Sound L before) (i : ι) (e : Event) :
    (m.publish i e).transport =
      if e.isLocal then m.transport else m.transport.broadcast (L.message (i, e)) := by
  have hx := hm.peer i
  simp only [publish, Broker.publish]
  split_ifs
  · rfl
  · rw [Transport.notify_of_online hm.online]
    simp only [Broker.deliver, hx.channel, hx.id, Layout.message]

theorem Sound.fits_publish (hm : m.Sound L before) (i : ι) (e : Event) {deliveries : List Delivery}
    (hz : Fits L m.transport m.carried j deliveries z) :
    Fits L (m.publish i e).transport (m.publish i e).carried j deliveries z := by
  rw [transport_publish hm, carried_publish]
  cases e.isLocal with
  | true => simpa using hz
  | false => exact hz.send (i, e)

theorem Sound.publish (hm : m.Sound L before) (i : ι) (e : Event) :
    (m.publish i e).Sound L before where
  online := by
    rw [transport_publish hm]
    split_ifs <;> exact hm.online
  logged := hm.logged
  sent := by
    rw [transport_publish hm, carried_publish]
    cases e.isLocal with
    | true => simpa using hm.sent
    | false =>
      rw [if_neg Bool.false_ne_true, if_neg Bool.false_ne_true,
        Transport.onChannel_broadcast (Nat.zero_le _), hm.sent]
      simp [Layout.message]
  peer := by
    refine (Function.forall_update_iff m.peer (p := Settled L (m.publish i e))).mpr
      ⟨?_, fun j hj => ?_⟩
    · have hx := hm.peer i
      rw [Hub.publish_eq]
      refine ⟨hx.id, hx.channel, hx.getters, ?_, ?_, fun z hz => ?_⟩
      · simp [Hub.deliver, hx.delivered, Delivery.event]
      · simp [Mesh.publish, Delivery.own?, hx.own]
      · exact hm.fits_publish i e ((hx.listener z hz).own e)
    · have hx := hm.peer j
      refine ⟨hx.id, hx.channel, hx.getters, hx.delivered, ?_, fun z hz => ?_⟩
      · rw [hx.own]
        simp [Mesh.publish, Ne.symm hj]
      · exact hm.fits_publish i e (hx.listener z hz)

theorem Sound.move (hm : m.Sound L before) (h : m.Move L m') : m'.Sound L before := by
  cases h with
  | publish i e => exact hm.publish i e
  | listen i hs => exact hm.listen hs
  | cease i =>
    have hx := hm.peer i
    exact hm.set ⟨hx.id, hx.channel, hx.getters, hx.delivered, hx.own, fun z hz => by cases hz⟩
  | read i hz hp hlag hfound => exact hm.read hz hp hlag hfound
  | hand i hz he => exact hm.hand hz he
  | attend i ha => exact hm.attend ha
  | change h =>
    exact ⟨hm.online, hm.logged.outcome (Store.Operation.outcome h), hm.sent,
      fun i => (hm.peer i).congr rfl rfl⟩
  | other hc =>
    refine ⟨hm.online, hm.logged, ?_, fun i => ?_⟩
    · rw [Transport.onChannel_broadcast (Nat.zero_le _), if_neg hc, List.append_nil]
      exact hm.sent
    · have hx := hm.peer i
      exact ⟨hx.id, hx.channel, hx.getters, hx.delivered, hx.own,
        fun z hz => (hx.listener z hz).other hc⟩

/-! ## Relay -/

theorem sound (h₀ : L.Starts m₀) (hm : Relation.ReflTransGen (Move L) m₀ m) :
    m.Sound L (m₀.transport.onChannel L.channel 0) := by
  induction hm with
  | refl => exact sound_of_starts h₀
  | tail _ h ih => exact ih.move h

/-- **Events are relayed without echo or loop.** The channel carries one message for each event that is
not local, in the order of publication. A node hands out what it publishes, and what arrives of the
messages it has taken since it began to listen: of its own nothing, and of the others what survives of
their events, each once and in the order of the channel. When it finds no message it has taken all. -/
theorem relay (h₀ : L.Starts m₀) (hm : Relation.ReflTransGen (Move L) m₀ m) :
    m.transport.onChannel L.channel 0 =
        m₀.transport.onChannel L.channel 0 ++ m.carried.map L.message ∧
      ∀ i, (m.peer i).hub.delivered = (m.peer i).deliveries.map Delivery.event ∧
        (m.peer i).deliveries.filterMap Delivery.own? =
          (m.published.filter fun p => p.1 = i).map Prod.snd ∧
        ∀ z, (m.peer i).listener = some z →
          ((m.peer i).deliveries.drop z.start).filterMap Delivery.relayed? ++ z.pending.toList =
            ((m.carried.drop z.since).zip z.readings).filterMap (L.arrival i) ∧
          (m.transport.oldest ≤ z.stream.next →
            ((m.transport.receive z.stream).1 = .waiting ↔
              z.readings.length = (m.carried.drop z.since).length)) ∧
          ∀ y ∈ (m.carried.drop z.since).zip z.readings,
            (y.1.1 = i → L.arrival i y = none) ∧
            (y.1.1 ≠ i → Event.Survives (L.getters i) y.2 y.1.2 (L.arrival i y)) := by
  have hs := sound h₀ hm
  refine ⟨hs.sent, fun i => ?_⟩
  have hx := hs.peer i
  refine ⟨hx.delivered, hx.own, fun z hz => ?_⟩
  have hfits := hx.listener z hz
  refine ⟨hfits.relayed, hfits.waiting_iff hs.online, fun y hy => ⟨fun hi => if_pos hi, fun hne => ?_⟩⟩
  have hlocal : y.1.2.isLocal = false := by
    have hmem := List.mem_of_mem_drop (List.of_mem_zip hy).1
    simpa [carried] using (List.mem_filter.mp hmem).2
  have hnumbers : (y.2.chunks.map StoredChunk.id).Nodup :=
    (hfits.readings y.2 (List.of_mem_zip hy).2).numbers.imp fun hlt => Int.ne_of_lt hlt
  rw [Layout.arrival, if_neg hne]
  exact Event.survives_arrival hnumbers hlocal

/-- A listener that has taken all messages finds the one about an event that is published. -/
theorem Sound.receive_publish (hm : m.Sound L before) (hz : (m.peer i).listener = some z)
    (hall : z.since + z.readings.length = m.carried.length)
    (hlag : (m.publish j e).transport.oldest ≤ z.stream.next) (hl : e.isLocal = false) :
    ∃ next, (m.publish j e).transport.receive z.stream =
      (.payload (L.message (j, e)).payload, { z.stream with next }) := by
  have hm₁ := hm.publish j e
  have hfits := hm.fits_publish j e ((hm.peer i).listener z hz)
  have hahead := hfits.ahead
  rw [carried_publish, if_neg (by simp [hl]), hall, List.drop_left, ← hfits.channel] at hahead
  rcases Transport.receive_cases hm₁.online hlag hfits.place with
    ⟨text, next, hreceive, -, hsome⟩ | ⟨-, hnone⟩
  · rw [hsome] at hahead
    obtain rfl : text = (L.message (j, e)).payload :=
      congrArg Message.payload (List.cons.inj hahead).1
    exact ⟨next, hreceive⟩
  · rw [hnone] at hahead
    cases hahead

/-- **An event can be relayed**: a listener that has taken all messages gets the next one. -/
theorem Sound.exists_relayed (hm : m.Sound L before) (hz : (m.peer i).listener = some z)
    (hp : z.pending = none) (hall : z.since + z.readings.length = m.carried.length)
    (hroom : m.transport.sent.size < Transport.depth) (hij : j ≠ i) (hl : e.isLocal = false)
    {a : Event} (ha : e.arrival (L.getters i) m.store = some a) :
    ∃ m' z', Relation.ReflTransGen (Move L) m m' ∧ (m'.peer i).listener = some z' ∧
      z'.pending = none ∧ z'.since + z'.readings.length = m'.carried.length ∧
      m'.store = m.store ∧ m'.transport.sent.size = m.transport.sent.size + 1 ∧
      m'.carried = m.carried ++ [(j, e)] ∧
      (m'.peer i).hub.delivered = (m.peer i).hub.delivered ++ [a] := by
  have hpeer : (m.publish j e).peer i = m.peer i := Function.update_of_ne hij.symm ..
  have hcarried : (m.publish j e).carried = m.carried ++ [(j, e)] := by
    rw [carried_publish, if_neg (by simp [hl])]
  have hsize : (m.publish j e).transport.sent.size = m.transport.sent.size + 1 := by
    rw [transport_publish hm, if_neg (by simp [hl]), Transport.broadcast, Array.size_push]
  have hlag : (m.publish j e).transport.oldest ≤ z.stream.next := by
    rw [Transport.oldest, hsize]
    omega
  obtain ⟨next, hreceive⟩ := hm.receive_publish hz hall hlag hl
  have htold : (m.peer i).hub.broker.told m.store (L.message (j, e)).payload = some a :=
    ((hm.peer i).told_message _ _).trans ((if_neg hij).trans ha)
  -- the listener with the event made and not handed out yet
  let z₂ : Listener := { z with
    stream := { z.stream with next }
    readings := z.readings ++ [m.store]
    pending := some a }
  let m₂ := (m.publish j e).set i { m.peer i with listener := some z₂ }
  have hread : (m.publish j e).read i z ((m.publish j e).transport.receive z.stream) = m₂ := by
    rw [hreceive, Mesh.read, hpeer]
    exact congrArg (fun r => (m.publish j e).set i
      { m.peer i with listener := some { z₂ with pending := r } }) htold
  have hz₂ : m₂.peer i = { m.peer i with listener := some z₂ } := Function.update_self ..
  have hmoves : Relation.ReflTransGen (Move L) m (m₂.hand i z₂ a) := by
    refine ((Relation.ReflTransGen.single (.publish j e)).tail ?_).tail (.hand i ?_ rfl)
    · rw [← hread]
      exact .read i (by rw [hpeer, hz]) hp hlag (.inl rfl)
    · rw [hz₂]
  refine ⟨_, { z₂ with pending := none }, hmoves, ?_, rfl, ?_, rfl, hsize, hcarried, ?_⟩
  · simp [Mesh.hand, Mesh.set]
  · change z.since + (z.readings ++ [m.store]).length = (m.publish j e).carried.length
    rw [hcarried, List.length_append, List.length_append]
    simp only [List.length_singleton]
    omega
  · simp [Mesh.hand, Mesh.set, Hub.deliver, m₂]

/-! ## Two nodes -/

/-- Two nodes that can load everything. -/
def pair : Layout Bool where
  channel := "events"
  pid i := if i then "node-b" else "node-a"
  getters _ := Broker.relations
  distinct i j h := by revert h; cases i <;> cases j <;> decide

/-- A run and its first log chunk. -/
def pairRun : Run :=
  Run.new 1 { organization := "acme", workspace := "ws-1" } ⟨0, 0⟩

def pairChunk : StoredChunk :=
  ⟨1, ⟨pairRun.id, .plan, 0, [Log.startMark]⟩⟩

def pairStore : Store :=
  { runs := [pairRun], chunks := [pairChunk], lastChunk := 1 }

/-- The two nodes before anything has happened. -/
def pairStart : Mesh Bool Unit where
  peer i := { hub := Hub.new Unit (pair.pid i) pair.channel (pair.getters i) }
  store := pairStore
  transport := {}

theorem starts_pairStart : pair.Starts pairStart where
  peer _ := rfl
  online := rfl
  logged := ⟨by decide +kernel, by decide +kernel, by decide +kernel, by decide +kernel⟩
  published := rfl

/-- The second node listens from the beginning. -/
def pairListening : Mesh Bool Unit :=
  pairStart.listen true ⟨"events", 0⟩

theorem move_pairListening : pairStart.Move pair pairListening :=
  .listen true rfl

theorem sound_pairListening : pairListening.Sound pair [] :=
  (sound_of_starts starts_pairStart).move move_pairListening

/-- A deletion is relayed. -/
theorem relay_deletion : ∃ (L : Layout Bool) (m₀ m : Mesh Bool Unit) (e : Event),
    L.Starts m₀ ∧ Relation.ReflTransGen (Move L) m₀ m ∧ e.type.isDeletion = true ∧
      m.carried = [(false, e)] ∧ (m.peer true).hub.delivered = [e] ∧
      m.transport.onChannel L.channel 0 = [L.message (false, e)] := by
  let e := Event.deleted .runDeleted "run-1"
  obtain ⟨m, z, hm, -, -, -, -, -, hcarried, hdelivered⟩ := sound_pairListening.exists_relayed
    (i := true) (j := false) (e := e) (a := e) rfl rfl rfl (by decide) (by decide) rfl rfl
  have hmoves := (Relation.ReflTransGen.single move_pairListening).trans hm
  obtain ⟨hsent, -⟩ := relay starts_pairStart hmoves
  refine ⟨pair, pairStart, m, e, starts_pairStart, hmoves, rfl, hcarried, hdelivered, ?_⟩
  rw [hsent, hcarried]
  rfl

/-- **What does not survive**: the spelling of a number that is not canonical, and the relation of a
reference that is not the one of its event. -/
theorem altered : ∃ (L : Layout Bool) (m₀ m : Mesh Bool Unit) (e₁ e₂ a₁ a₂ : Event),
    L.Starts m₀ ∧ Relation.ReflTransGen (Move L) m₀ m ∧
      m.carried = [(false, e₁), (false, e₂)] ∧ (m.peer true).hub.delivered = [a₁, a₂] ∧
      a₁.payload.id ≠ e₁.payload.id ∧
      e₂.type.isDeletion = true ∧ e₂.payload = .deleted "volume" "v-1" ∧
      a₂.payload ≠ e₂.payload := by
  let e₁ : Event := { type := .chunkCreated, payload := .deleted "chunk" "+1" }
  let e₂ : Event := { type := .workspaceDeleted, payload := .deleted "volume" "v-1" }
  obtain ⟨a₁, ha₁, hid⟩ : ∃ a, e₁.arrival (pair.getters true) pairStore = some a ∧
      a.payload.id ≠ "+1" := by
    refine ⟨{ type := .chunkCreated, payload := .chunk pairChunk }, ?_, by decide⟩
    refine (Event.arrival_eq_some_iff (by decide)).mpr ⟨by decide, .chunk pairChunk, ?_, rfl⟩
    exact Store.load_chunk_eq_ok_iff.mpr ⟨1, pairChunk, by decide, rfl, rfl⟩
  obtain ⟨m₁, z, hm₁, hz, hp, hall, hstore, hsize, hcarried₁, hdelivered₁⟩ :=
    sound_pairListening.exists_relayed (i := true) (j := false) (e := e₁) (a := a₁) rfl rfl rfl
      (by decide) (by decide) rfl ha₁
  have hmoves := (Relation.ReflTransGen.single move_pairListening).trans hm₁
  obtain ⟨m, -, hm, -, -, -, -, -, hcarried, hdelivered⟩ :=
    (sound starts_pairStart hmoves).exists_relayed (i := true) (j := false) (e := e₂)
      (a := Event.deleted .workspaceDeleted "v-1") hz hp hall (by rw [hsize]; decide) (by decide)
      rfl (by rfl)
  refine ⟨pair, pairStart, m, e₁, e₂, a₁, Event.deleted .workspaceDeleted "v-1", starts_pairStart,
    hmoves.trans hm, ?_, ?_, hid, rfl, rfl, by decide⟩
  · rw [hcarried, hcarried₁]
    rfl
  · rw [hdelivered, hdelivered₁]
    rfl

end Mesh

end Provision
