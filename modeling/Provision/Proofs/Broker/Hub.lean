import Mathlib.Data.List.Nodup
import Mathlib.Logic.Function.Iterate
import Mathlib.Logic.Relation
import Provision.Proofs.Broker.Inbox

/-!
# What a subscriber gets to see

A `Hub` is a broker with its subscribers: what it delivered, who ever subscribed, and what each of them
took out of its inbox. Publishing, listening, subscribing, receiving and giving up happen in any order.

A subscription is given up by a task of its own, some time after the token was fired with which it was
made, or after it lost its registration. Somebody else may have subscribed under the same name by then.

* `Hub.Move`: what can happen. `Hub.Sound.move`: the invariant `Hub.Sound` is kept by every move.
* **`Hub.Reachable.gap_free`**: a subscription sees the first events delivered after it was made, without
  a gap, and all of them as long as it is registered.
-/

namespace Provision

/-- A subscription that was made. -/
structure Ticket (τ : Type) where
  name : String
  generation : ℕ
  /-- What ends the subscription when it is fired. -/
  token : τ
  /-- How many events had been delivered when the subscription was made. -/
  since : ℕ
  deriving DecidableEq

/-- The registration of a subscription. -/
def Ticket.registration {τ : Type} (t : Ticket τ) : Registration :=
  ⟨t.name, t.generation⟩

/-- A broker and its subscribers. -/
structure Hub (τ : Type) where
  broker : Broker
  /-- The events handed to the subscribers of the node, oldest first. -/
  delivered : List Event := []
  tickets : List (Ticket τ) := []
  fired : List τ := []
  /-- What was taken out of the inbox of each generation. -/
  taken : ℕ → List Event := fun _ => []
  /-- What was left in the inboxes that were thrown away. -/
  lost : ℕ → List Event := fun _ => []

namespace Hub

variable {τ : Type} {h h' h'' : Hub τ} {t u : Ticket τ} {g k : ℕ} {e : Event}

/-- What a generation has not taken out. -/
def unread (h : Hub τ) (g : ℕ) : List Event :=
  match h.broker.inbox? g with
  | some i => i.events
  | none => h.lost g

/-- What came into the inbox of a generation. -/
def seen (h : Hub τ) (g : ℕ) : List Event :=
  h.taken g ++ h.unread g

/-- Whether a subscription is registered. -/
def IsRegistered (h : Hub τ) (t : Ticket τ) : Prop :=
  h.broker.isRegistered t.generation = true

instance (h : Hub τ) (t : Ticket τ) : Decidable (h.IsRegistered t) :=
  inferInstanceAs (Decidable (_ = true))

/-- The hub after an event was handed to the subscribers. -/
def deliver (h : Hub τ) (e : Event) : Hub τ :=
  { h with broker := h.broker.deliver e, delivered := h.delivered ++ [e] }

/-- The hub after an event was published. -/
def publish (h : Hub τ) (t : Transport) (e : Event) : Hub τ :=
  { h with broker := (h.broker.publish t e).1, delivered := h.delivered ++ [e] }

/-- The hub after a message of another node was heard. -/
def hear (h : Hub τ) (s : Store) (text : String) : Hub τ :=
  { h with
    broker := h.broker.hear s text
    delivered := h.delivered ++ (h.broker.told s text).toList }

/-- The hub after a subscription was made. -/
def enroll (h : Hub τ) (name : String) (token : τ) (g : ℕ) (b : Broker) : Hub τ :=
  { h with
    broker := b
    tickets := h.tickets ++ [⟨name, g, token, h.delivered.length⟩] }

/-- The hub after somebody tried to subscribe. -/
def subscribe (h : Hub τ) (name : String) (token : τ) : Hub τ :=
  match h.broker.subscribe name with
  | .ok (g, b) => h.enroll name token g b
  | .error _ => h

/-- The hub after an event was taken out of an inbox. -/
def take (h : Hub τ) (g : ℕ) (e : Event) (b : Broker) : Hub τ :=
  { h with
    broker := b
    taken := Function.update h.taken g (h.taken g ++ [e]) }

/-- The hub after somebody looked for an event. -/
def receive (h : Hub τ) (g : ℕ) : Hub τ :=
  match h.broker.receive g with
  | (some e, b) => h.take g e b
  | (none, _) => h

/-- The hub after an inbox was thrown away. -/
def drop (h : Hub τ) (g : ℕ) : Hub τ :=
  { h with
    broker := h.broker.dropInbox g
    lost := Function.update h.lost g (h.unread g) }

/-- The hub after a subscription was given up. -/
def giveUp (h : Hub τ) (t : Ticket τ) : Hub τ :=
  { h with broker := h.broker.unregister t.name t.generation }

/-- What subscribers do. -/
inductive Attends (h : Hub τ) : Hub τ → Prop
  | subscribe (name : String) (token : τ) : Attends h (h.subscribe name token)
  | receive (g : ℕ) : Attends h (h.receive g)
  | drop (g : ℕ) : Attends h (h.drop g)
  | fire (token : τ) : Attends h { h with fired := h.fired ++ [token] }
  /-- The task of a subscription gives it up. -/
  | giveUp (t : Ticket τ) : t ∈ h.tickets → t.token ∈ h.fired ∨ ¬ h.IsRegistered t →
      Attends h (h.giveUp t)

/-- What can happen. -/
inductive Move (h : Hub τ) : Hub τ → Prop
  | publish (t : Transport) (e : Event) : Move h (h.publish t e)
  | hear (s : Store) (text : String) : Move h (h.hear s text)
  | attend {h' : Hub τ} : h.Attends h' → Move h h'

/-- A hub nobody subscribed to. -/
def new (τ : Type) (id channel : String) (getters : List String) : Hub τ :=
  { broker := { id, channel, getters } }

/-- What comes about from a new broker. -/
def Reachable (h : Hub τ) : Prop :=
  ∃ id channel getters, Relation.ReflTransGen Move (new τ id channel getters) h

theorem publish_eq (h : Hub τ) (t : Transport) (e : Event) : h.publish t e = h.deliver e := by
  rw [publish, deliver, Broker.publish_fst]

theorem hear_eq (h : Hub τ) (s : Store) (text : String) :
    h.hear s text = match h.broker.told s text with
      | some e => h.deliver e
      | none => h := by
  rw [hear, Broker.hear_eq]
  rcases h.broker.told s text with _ | e
  · simp
  · rfl

/-- What subscribers do, where it does something. -/
inductive Alters (h : Hub τ) : Hub τ → Prop
  | subscribe (name : String) (token : τ) {g : ℕ} {b : Broker} :
      h.broker.subscribe name = .ok (g, b) → Alters h (h.enroll name token g b)
  | receive {g : ℕ} {e : Event} {b : Broker} : h.broker.receive g = (some e, b) →
      Alters h (h.take g e b)
  | drop (g : ℕ) : Alters h (h.drop g)
  | fire (token : τ) : Alters h { h with fired := h.fired ++ [token] }
  | giveUp (t : Ticket τ) : t ∈ h.tickets → t.token ∈ h.fired ∨ ¬ h.IsRegistered t →
      Alters h (h.giveUp t)

theorem Attends.eq_or_alters (ha : h.Attends h') : h' = h ∨ h.Alters h' := by
  cases ha with
  | subscribe name token =>
    unfold Hub.subscribe
    split
    · next hb => exact .inr (.subscribe name token hb)
    · exact .inl rfl
  | receive g =>
    unfold Hub.receive
    split
    · next hb => exact .inr (.receive hb)
    · exact .inl rfl
  | drop g => exact .inr (.drop g)
  | fire token => exact .inr (.fire token)
  | giveUp t ht hf => exact .inr (.giveUp t ht hf)

theorem Attends.kept (ha : h.Attends h') : h'.delivered = h.delivered ∧
    h'.broker.id = h.broker.id ∧ h'.broker.channel = h.broker.channel ∧
      h'.broker.getters = h.broker.getters := by
  rcases ha.eq_or_alters with rfl | ha
  · exact ⟨rfl, rfl, rfl, rfl⟩
  cases ha with
  | subscribe name token hb =>
    obtain ⟨-, -, rfl⟩ := Broker.subscribe_eq hb
    exact ⟨rfl, rfl, rfl, rfl⟩
  | receive hb =>
    obtain ⟨rest, -, rfl⟩ := Broker.receive_eq hb
    exact ⟨rfl, rfl, rfl, rfl⟩
  | drop g => exact ⟨rfl, rfl, rfl, rfl⟩
  | fire token => exact ⟨rfl, rfl, rfl, rfl⟩
  | giveUp t ht hf => exact ⟨rfl, rfl, rfl, rfl⟩

/-- **Every move** hands out an event, or is one of a subscriber, or does nothing. -/
theorem Move.cases_deliver (m : Move h h') :
    h' = h ∨ (∃ e, h' = h.deliver e) ∨ h.Alters h' := by
  cases m with
  | publish t e => exact .inr (.inl ⟨e, publish_eq h t e⟩)
  | hear s text =>
    rw [hear_eq]
    rcases h.broker.told s text with _ | e
    · exact .inl rfl
    · exact .inr (.inl ⟨e, rfl⟩)
  | attend ha => exact ha.eq_or_alters.imp_right .inr

/-! ## What is kept -/

/-- What holds of every hub. -/
structure Sound (h : Hub τ) : Prop where
  /-- Two registered subscriptions never share a name. -/
  names : (h.broker.registrations.map Registration.name).Nodup
  generations : (h.tickets.map Ticket.generation).Nodup
  /-- Registrations belong to subscriptions that were made. -/
  registered : ∀ r ∈ h.broker.registrations, ∃ t ∈ h.tickets, t.registration = r
  issued : ∀ t ∈ h.tickets, t.generation ≤ h.broker.lastGeneration
  inboxes : ∀ i ∈ h.broker.inboxes, i.generation ≤ h.broker.lastGeneration
  /-- Nothing is known of generations to come. -/
  blank : ∀ g, h.broker.lastGeneration < g → h.taken g = [] ∧ h.lost g = []
  since : ∀ t ∈ h.tickets, t.since ≤ h.delivered.length
  bounded : ∀ t ∈ h.tickets, (h.unread t.generation).length ≤ Broker.capacity
  /-- Without a gap. -/
  gapless : ∀ t ∈ h.tickets, h.seen t.generation <+: h.delivered.drop t.since
  /-- While it is registered, a subscription misses nothing. -/
  whole : ∀ t ∈ h.tickets, h.IsRegistered t → h.seen t.generation = h.delivered.drop t.since

theorem sound_new (id channel : String) (getters : List String) :
    (new τ id channel getters).Sound where
  names := List.nodup_nil
  generations := List.nodup_nil
  registered _ hr := by cases hr
  issued _ ht := by cases ht
  inboxes _ hi := by cases hi
  blank _ _ := ⟨rfl, rfl⟩
  since _ ht := by cases ht
  bounded _ ht := by cases ht
  gapless _ ht := by cases ht
  whole _ ht := by cases ht

/-! ### An event is handed out -/

theorem unread_deliver (h : Hub τ) (e : Event) (g : ℕ) : (h.deliver e).unread g =
    if (h.broker.isRegistered g && h.broker.takes g) = true then h.unread g ++ [e]
    else h.unread g := by
  change (match (h.broker.deliver e).inbox? g with | some i => i.events | none => h.lost g) = _
  rw [Broker.inbox?_deliver]
  unfold unread Broker.takes
  rcases h.broker.inbox? g with _ | i
  · simp
  · simp only [Option.map_some]
    split_ifs <;> rfl

theorem seen_deliver (h : Hub τ) (e : Event) (t : Ticket τ) :
    (h.IsRegistered t ∧ (h.deliver e).IsRegistered t ∧
        (h.deliver e).seen t.generation = h.seen t.generation ++ [e] ∧
        (h.unread t.generation).length < Broker.capacity) ∨
      ¬ (h.deliver e).IsRegistered t ∧
        (h.deliver e).unread t.generation = h.unread t.generation := by
  unfold IsRegistered seen
  rw [unread_deliver]
  change (_ ∧ (h.broker.deliver e).isRegistered _ = true ∧ _) ∨
    ¬ (h.broker.deliver e).isRegistered _ = true ∧ _
  rw [Broker.isRegistered_deliver]
  by_cases hk : (h.broker.isRegistered t.generation && h.broker.takes t.generation) = true
  · rw [if_pos hk]
    obtain ⟨hr, ht⟩ := (Bool.and_eq_true _ _).mp hk
    refine .inl ⟨hr, hk, (List.append_assoc ..).symm, ?_⟩
    unfold Broker.takes at ht
    unfold unread
    split at ht
    · next i hi => simpa [hi] using ht
    · cases ht
  · exact .inr ⟨hk, if_neg hk⟩

theorem Sound.deliver (hs : h.Sound) (e : Event) : (h.deliver e).Sound where
  names := hs.names.sublist ((Broker.registrations_deliver _ e).map _)
  generations := hs.generations
  registered r hr := hs.registered r ((Broker.registrations_deliver _ e).subset hr)
  issued := hs.issued
  inboxes i hi := by
    obtain ⟨j, hj, hg⟩ := Broker.mem_inboxes_deliver hi
    exact hg ▸ hs.inboxes j hj
  blank := hs.blank
  since t ht := by
    have := hs.since t ht
    simp only [Hub.deliver, List.length_append]
    omega
  bounded t ht := by
    have := hs.bounded t ht
    rw [unread_deliver]
    rcases seen_deliver h e t with ⟨-, -, -, hl⟩ | ⟨-, hu⟩
    · split_ifs
      · simp only [List.length_append, List.length_singleton]
        omega
      · exact this
    · rw [← unread_deliver, hu]
      exact this
  gapless t ht := by
    have hd : (h.delivered ++ [e]).drop t.since = h.delivered.drop t.since ++ [e] :=
      List.drop_append_of_le_length (hs.since t ht)
    change _ <+: (h.delivered ++ [e]).drop t.since
    rw [hd]
    rcases seen_deliver h e t with ⟨hr, -, hseen, -⟩ | ⟨-, hu⟩
    · have hwhole : (h.deliver e).seen t.generation = h.delivered.drop t.since ++ [e] := by
        rw [hseen, hs.whole t ht hr]
      exact hwhole ▸ List.prefix_rfl
    · rw [seen, hu]
      exact (hs.gapless t ht).trans (List.prefix_append _ _)
  whole t ht hr := by
    have hd : (h.delivered ++ [e]).drop t.since = h.delivered.drop t.since ++ [e] :=
      List.drop_append_of_le_length (hs.since t ht)
    rcases seen_deliver h e t with ⟨hr', -, hseen, -⟩ | ⟨hn, -⟩
    · exact hseen.trans ((hs.whole t ht hr').symm ▸ hd.symm)
    · exact absurd hr hn

/-! ### A subscriber does something -/

theorem Sound.eq_of_generation (hs : h.Sound) (ht : t ∈ h.tickets) (hu : u ∈ h.tickets)
    (hg : t.generation = u.generation) : t = u :=
  List.inj_on_of_nodup_map hs.generations ht hu hg

theorem Sound.registration_eq (hs : h.Sound) (ht : t ∈ h.tickets) {r : Registration}
    (hr : r ∈ h.broker.registrations) (hg : r.generation = t.generation) : r = t.registration := by
  obtain ⟨u, hu, rfl⟩ := hs.registered r hr
  rw [hs.eq_of_generation hu ht hg]

theorem unread_subscribe {name : String} {b : Broker}
    (hb : h.broker.subscribe name = .ok (g, b)) (hk : k ≤ h.broker.lastGeneration) :
    b.inbox? k = h.broker.inbox? k ∧ b.isRegistered k = h.broker.isRegistered k := by
  obtain ⟨rfl, -, rfl⟩ := Broker.subscribe_eq hb
  have hne : (h.broker.lastGeneration + 1 == k) = false := by
    simp only [beq_eq_false_iff_ne, ne_eq]
    omega
  constructor
  · simp [Broker.inbox?, List.find?_append, hne]
  · simp [Broker.isRegistered, hne]

theorem seen_subscribe (hs : h.Sound) {name : String} {token : τ} {b : Broker}
    (hb : h.broker.subscribe name = .ok (g, b)) : (h.enroll name token g b).seen g = [] := by
  obtain ⟨rfl, -, rfl⟩ := Broker.subscribe_eq hb
  have hnone : h.broker.inboxes.find? (fun i => i.generation == h.broker.lastGeneration + 1) =
      none := by
    refine List.find?_eq_none.mpr fun i hi => ?_
    have := hs.inboxes i hi
    simp only [beq_iff_eq]
    omega
  simp [enroll, seen, unread, Broker.inbox?, List.find?_append, hnone,
    (hs.blank _ (Nat.lt_succ_self _)).1]

theorem unread_taken (h : Hub τ) (rest : List Event) (hi : h.broker.inbox? g = some ⟨g, e :: rest⟩)
    (k : ℕ) :
    let h' := h.take g e { h.broker with
      inboxes := h.broker.inboxes.map fun i =>
        if i.generation = g then { i with events := rest } else i }
    h'.seen k = h.seen k ∧ h'.unread k = if k = g then rest else h.unread k := by
  dsimp only [take, seen, unread]
  rw [Broker.inbox?_taken]
  by_cases hk : k = g
  · subst hk
    simp [hi]
  · rw [Function.update_of_ne hk]
    rcases h.broker.inbox? k with _ | i
    · simp [hk]
    · simp [hk]

theorem unread_drop (h : Hub τ) (g k : ℕ) :
    (h.drop g).unread k = h.unread k := by
  by_cases hk : k = g
  · subst hk
    simp [drop, unread, Broker.inbox?_dropInbox]
  · simp [drop, unread, Broker.inbox?_dropInbox_of_ne _ hk, Function.update_of_ne hk]

/-- **What subscribers do changes nothing that was seen.** -/
theorem Alters.seen_eq (hs : h.Sound) (ha : h.Alters h') (ht : t ∈ h.tickets) :
    h'.seen t.generation = h.seen t.generation ∧
      (h'.unread t.generation).length ≤ (h.unread t.generation).length := by
  cases ha with
  | subscribe name token hb =>
    obtain ⟨hi, -⟩ := unread_subscribe hb (hs.issued t ht)
    simp [enroll, seen, unread, hi]
  | @receive g e b hb =>
    obtain ⟨rest, hi, rfl⟩ := Broker.receive_eq hb
    obtain ⟨hseen, hu⟩ := unread_taken h rest hi t.generation
    refine ⟨hseen, Nat.le_trans (Nat.le_of_eq (congrArg List.length hu)) ?_⟩
    split_ifs with hg
    · simp [unread, hg, hi]
    · exact Nat.le_refl _
  | drop g =>
    have hu := unread_drop h g t.generation
    exact ⟨congrArg (h.taken _ ++ ·) hu, Nat.le_of_eq (congrArg List.length hu)⟩
  | fire token => exact ⟨rfl, Nat.le_refl _⟩
  | giveUp u hu hf => exact ⟨rfl, Nat.le_refl _⟩

/-- **Who subscribers take the registration from**: themselves, when their token was fired. -/
theorem Alters.registered_or (hs : h.Sound) (ha : h.Alters h') (ht : t ∈ h.tickets) :
    (h'.IsRegistered t ↔ h.IsRegistered t) ∨
      t.token ∈ h.fired ∧ ¬ h'.IsRegistered t ∧
        h'.broker = h.broker.unregister t.name t.generation := by
  cases ha with
  | subscribe name token hb =>
    obtain ⟨-, hr⟩ := unread_subscribe hb (hs.issued t ht)
    exact .inl (by rw [IsRegistered, IsRegistered, ← hr, enroll])
  | receive hb =>
    obtain ⟨rest, hi, rfl⟩ := Broker.receive_eq hb
    exact .inl Iff.rfl
  | drop g => exact .inl Iff.rfl
  | fire token => exact .inl Iff.rfl
  | giveUp u hu hf =>
    by_cases hg : t.generation = u.generation
    · obtain rfl := hs.eq_of_generation ht hu hg
      have hn : ¬ (h.broker.unregister t.name t.generation).isRegistered t.generation = true := by
        rw [Broker.isRegistered_iff]
        rintro ⟨r, hr, hrg⟩
        obtain ⟨hr, hne⟩ := Broker.mem_unregister.mp hr
        exact hne (hs.registration_eq ht hr hrg)
      rcases hf with hf | hf
      · exact .inr ⟨hf, hn, rfl⟩
      · exact .inl ⟨fun hr => absurd hr hn, fun hr => absurd hr hf⟩
    · refine .inl ?_
      rw [IsRegistered, IsRegistered, Hub.giveUp, Broker.isRegistered_unregister_of_ne _ _ hg]

theorem Alters.delivered (ha : h.Alters h') : h'.delivered = h.delivered := by
  cases ha <;> rfl

theorem Alters.tickets (ha : h.Alters h') :
    (∃ name token g b, h.broker.subscribe name = .ok (g, b) ∧ h' = h.enroll name token g b) ∨
      h'.tickets = h.tickets ∧ h'.broker.lastGeneration = h.broker.lastGeneration ∧
        h'.broker.registrations.Sublist h.broker.registrations ∧
        (∀ i ∈ h'.broker.inboxes, ∃ j ∈ h.broker.inboxes, i.generation = j.generation) := by
  cases ha with
  | subscribe name token hb => exact .inl ⟨name, token, _, _, hb, rfl⟩
  | receive hb =>
    obtain ⟨rest, -, rfl⟩ := Broker.receive_eq hb
    refine .inr ⟨rfl, rfl, .refl _, fun i hi => ?_⟩
    obtain ⟨j, hj, rfl⟩ := List.mem_map.mp hi
    exact ⟨j, hj, by split_ifs <;> rfl⟩
  | drop g => exact .inr ⟨rfl, rfl, .refl _, fun i hi => ⟨i, (List.mem_filter.mp hi).1, rfl⟩⟩
  | fire token => exact .inr ⟨rfl, rfl, .refl _, fun i hi => ⟨i, hi, rfl⟩⟩
  | giveUp u hu hf => exact .inr ⟨rfl, rfl, List.filter_sublist, fun i hi => ⟨i, hi, rfl⟩⟩

theorem Alters.blank (hs : h.Sound) (ha : h.Alters h') (hg : h'.broker.lastGeneration < g) :
    h'.taken g = [] ∧ h'.lost g = [] := by
  cases ha with
  | subscribe name token hb =>
    obtain ⟨rfl, -, rfl⟩ := Broker.subscribe_eq hb
    exact hs.blank g (Nat.lt_of_succ_lt hg)
  | @receive k e b hb =>
    obtain ⟨rest, hi, rfl⟩ := Broker.receive_eq hb
    have hk : g ≠ k := by
      have := hs.inboxes _ (List.mem_of_find?_eq_some hi)
      rintro rfl
      exact absurd hg (Nat.not_lt.mpr this)
    exact ⟨(Function.update_of_ne hk ..).trans (hs.blank g hg).1, (hs.blank g hg).2⟩
  | drop k =>
    refine ⟨(hs.blank g hg).1, ?_⟩
    by_cases hk : g = k
    · subst hk
      have hnone : h.broker.inbox? g = none := by
        refine List.find?_eq_none.mpr fun i hi => ?_
        have hle := hs.inboxes i hi
        simp only [beq_iff_eq]
        rintro rfl
        exact absurd hg (Nat.not_lt.mpr hle)
      have hu : h.unread g = h.lost g := by simp [unread, hnone]
      exact (Function.update_self ..).trans (hu.trans (hs.blank g hg).2)
    · exact (Function.update_of_ne hk ..).trans (hs.blank g hg).2
  | fire token => exact hs.blank g hg
  | giveUp u hu hf => exact hs.blank g hg

theorem mem_enroll {name : String} {token : τ} {b : Broker} :
    t ∈ (h.enroll name token g b).tickets ↔
      t ∈ h.tickets ∨ t = ⟨name, g, token, h.delivered.length⟩ := by
  simp [enroll]

theorem Sound.subscribe (hs : h.Sound) {name : String} (token : τ) {b : Broker}
    (hb : h.broker.subscribe name = .ok (g, b)) : (h.enroll name token g b).Sound := by
  have ha : h.Alters (h.enroll name token g b) := .subscribe name token hb
  obtain ⟨hgen, hname, hbroker⟩ := Broker.subscribe_eq hb
  have hlast : (h.enroll name token g b).broker.lastGeneration = h.broker.lastGeneration + 1 := by
    rw [enroll, hbroker, hgen]
  have hnew : (h.enroll name token g b).seen g = [] := seen_subscribe hs hb
  have hempty := (List.append_eq_nil_iff.mp hnew).2
  exact {
    names := by
      rw [enroll, hbroker, List.map_append]
      refine List.nodup_append.mpr ⟨hs.names, List.nodup_singleton _, fun x hx y hy hxy => ?_⟩
      obtain ⟨r, hr, rfl⟩ := List.mem_map.mp hx
      exact hname r hr (hxy.trans (List.mem_singleton.mp hy))
    generations := by
      rw [enroll, List.map_append]
      refine List.nodup_append.mpr
        ⟨hs.generations, List.nodup_singleton _, fun x hx y hy hxy => ?_⟩
      obtain ⟨t, ht, rfl⟩ := List.mem_map.mp hx
      have := hs.issued t ht
      rw [hxy, List.mem_singleton.mp hy, hgen] at this
      exact absurd this (Nat.not_succ_le_self _)
    registered := fun r hr => by
      rw [enroll, hbroker] at hr
      rcases List.mem_append.mp hr with hr | hr
      · obtain ⟨t, ht, htr⟩ := hs.registered r hr
        exact ⟨t, List.mem_append_left _ ht, htr⟩
      · exact ⟨_, List.mem_append_right _ List.mem_cons_self, (List.mem_singleton.mp hr).symm⟩
    issued := fun t ht => by
      rw [hlast]
      rcases mem_enroll.mp ht with ht | rfl
      · exact Nat.le_succ_of_le (hs.issued t ht)
      · exact Nat.le_of_eq hgen
    inboxes := fun i hi => by
      rw [hlast]
      rw [enroll, hbroker] at hi
      rcases List.mem_append.mp hi with hi | hi
      · exact Nat.le_succ_of_le (hs.inboxes i hi)
      · exact Nat.le_of_eq ((congrArg Inbox.generation (List.mem_singleton.mp hi)).trans hgen)
    blank := fun g => ha.blank hs
    since := fun t ht => by
      rcases mem_enroll.mp ht with ht | rfl
      · exact hs.since t ht
      · exact Nat.le_refl _
    bounded := fun t ht => by
      rcases mem_enroll.mp ht with ht | rfl
      · exact Nat.le_trans (ha.seen_eq hs ht).2 (hs.bounded t ht)
      · rw [hempty]
        exact Nat.zero_le _
    gapless := fun t ht => by
      rcases mem_enroll.mp ht with ht | rfl
      · rw [(ha.seen_eq hs ht).1]
        exact hs.gapless t ht
      · rw [hnew]
        exact List.nil_prefix
    whole := fun t ht hr => by
      rcases mem_enroll.mp ht with ht | rfl
      · rw [(ha.seen_eq hs ht).1]
        rcases ha.registered_or hs ht with hiff | ⟨-, hn, -⟩
        · exact hs.whole t ht (hiff.mp hr)
        · exact absurd hr hn
      · exact hnew.trans List.drop_length.symm }

theorem Sound.alters (hs : h.Sound) (ha : h.Alters h') : h'.Sound := by
  rcases ha.tickets with ⟨name, token, g, b, hb, rfl⟩ | ⟨ht, hl, hr, hi⟩
  · exact hs.subscribe token hb
  have hmem {t : Ticket τ} (hm : t ∈ h'.tickets) : t ∈ h.tickets := ht ▸ hm
  exact {
    names := hs.names.sublist (hr.map _)
    generations := ht ▸ hs.generations
    registered := fun r hm => ht ▸ hs.registered r (hr.subset hm)
    issued := fun t hm => hl ▸ hs.issued t (hmem hm)
    inboxes := fun i hm => by
      obtain ⟨j, hj, hg⟩ := hi i hm
      rw [hg, hl]
      exact hs.inboxes j hj
    blank := fun g => ha.blank hs
    since := fun t hm => ha.delivered ▸ hs.since t (hmem hm)
    bounded := fun t hm => Nat.le_trans (ha.seen_eq hs (hmem hm)).2 (hs.bounded t (hmem hm))
    gapless := fun t hm => by
      rw [(ha.seen_eq hs (hmem hm)).1, ha.delivered]
      exact hs.gapless t (hmem hm)
    whole := fun t hm hreg => by
      rw [(ha.seen_eq hs (hmem hm)).1, ha.delivered]
      rcases ha.registered_or hs (hmem hm) with hiff | ⟨-, hn, -⟩
      · exact hs.whole t (hmem hm) (hiff.mp hreg)
      · exact absurd hreg hn }

/-- **What every move keeps.** -/
theorem Sound.move (hs : h.Sound) (m : Move h h') : h'.Sound := by
  rcases m.cases_deliver with rfl | ⟨e, rfl⟩ | ha
  · exact hs
  · exact hs.deliver e
  · exact hs.alters ha

theorem Reachable.sound (hr : h.Reachable) : h.Sound := by
  obtain ⟨id, channel, getters, hm⟩ := hr
  induction hm with
  | refl => exact sound_new id channel getters
  | tail _ m ih => exact ih.move m

/-! ## Gap-free prefixes -/

/-- How a subscription comes to its end: its own token was fired, or its own inbox is full, or gone, when
an event comes. -/
inductive Ends (h h' : Hub τ) (t : Ticket τ) : Prop
  | canceled : t.token ∈ h.fired → h'.broker = h.broker.unregister t.name t.generation → Ends h h' t
  | evicted (e : Event) : h' = h.deliver e →
      h.broker.inbox? t.generation = none ∨ (h.unread t.generation).length = Broker.capacity →
      Ends h h' t

theorem Move.mem_tickets (m : Move h h') (ht : t ∈ h.tickets) : t ∈ h'.tickets := by
  rcases m.cases_deliver with rfl | ⟨e, rfl⟩ | ha
  · exact ht
  · exact ht
  · rcases ha.tickets with ⟨name, token, g, b, -, rfl⟩ | ⟨h, -⟩
    · exact List.mem_append_left _ ht
    · exact h ▸ ht

/-- **A registration is lost by what its own subscriber did**, or failed to do. -/
theorem Move.ends (m : Move h h') (hs : h.Sound) (ht : t ∈ h.tickets) (hr : h.IsRegistered t)
    (hn : ¬ h'.IsRegistered t) : Ends h h' t := by
  rcases m.cases_deliver with rfl | ⟨e, rfl⟩ | ha
  · exact absurd hr hn
  · refine .evicted e rfl ?_
    have htakes : ¬ h.broker.takes t.generation = true := fun htakes => hn <| by
      change (h.broker.deliver e).isRegistered _ = true
      rw [Broker.isRegistered_deliver, htakes, Bool.and_true]
      exact hr
    have hle := hs.bounded t ht
    unfold Broker.takes at htakes
    unfold unread at hle ⊢
    rcases hi : h.broker.inbox? t.generation with _ | i
    · exact .inl rfl
    · simp only [hi, decide_eq_true_eq, Nat.not_lt] at htakes hle
      exact .inr (Nat.le_antisymm hle htakes)
  · rcases ha.registered_or hs ht with hiff | ⟨hf, -, hb⟩
    · exact absurd (hiff.mpr hr) hn
    · exact .canceled hf hb

/-- What has lost its registration does not get it back, and sees nothing new. -/
theorem Move.stays_out (m : Move h h') (hs : h.Sound) (ht : t ∈ h.tickets)
    (hn : ¬ h.IsRegistered t) :
    ¬ h'.IsRegistered t ∧ h'.seen t.generation = h.seen t.generation := by
  rcases m.cases_deliver with rfl | ⟨e, rfl⟩ | ha
  · exact ⟨hn, rfl⟩
  · rcases seen_deliver h e t with ⟨hr, -⟩ | ⟨hn', hu⟩
    · exact absurd hr hn
    · exact ⟨hn', congrArg (h.taken _ ++ ·) hu⟩
  · refine ⟨?_, (ha.seen_eq hs ht).1⟩
    rcases ha.registered_or hs ht with hiff | ⟨-, hn', -⟩
    · exact fun hr => hn (hiff.mp hr)
    · exact hn'

theorem stays_out (hm : Relation.ReflTransGen Move h h') (hs : h.Sound) (ht : t ∈ h.tickets)
    (hn : ¬ h.IsRegistered t) :
    ¬ h'.IsRegistered t ∧ h'.seen t.generation = h.seen t.generation := by
  have hkept : h'.Sound ∧ t ∈ h'.tickets ∧ ¬ h'.IsRegistered t ∧
      h'.seen t.generation = h.seen t.generation := by
    induction hm with
    | refl => exact ⟨hs, ht, hn, rfl⟩
    | tail _ m ih =>
      obtain ⟨hs, ht, hn, hseen⟩ := ih
      obtain ⟨hn', hseen'⟩ := m.stays_out hs ht hn
      exact ⟨hs.move m, m.mem_tickets ht, hn', hseen'.trans hseen⟩
  exact hkept.2.2

/-- A stream ends when there is nothing more to take out, and nothing will come. -/
theorem hasEnded_iff (h : Hub τ) (t : Ticket τ) : h.broker.hasEnded t.generation = true ↔
    ¬ h.IsRegistered t ∧
      (h.broker.inbox? t.generation = none ∨ h.unread t.generation = []) := by
  unfold Broker.hasEnded IsRegistered unread
  rcases h.broker.inbox? t.generation with _ | i
  · simp
  · simp

/-- **A subscription sees a gap-free prefix** of what was delivered after it was made: in order, without
a gap, and all of it while it is registered, with no more than `Broker.capacity` events unread. One that
missed an event is not registered any more, sees nothing new, and its stream ends when it is drained.
Names are unique among the registered ones, and nobody loses a registration to an older or a later
subscription of the name. -/
theorem Reachable.gap_free (hr : h.Reachable) :
    (h.broker.registrations.map Registration.name).Nodup ∧
      (∀ t ∈ h.tickets,
        h.seen t.generation <+: h.delivered.drop t.since ∧
        (h.IsRegistered t → h.seen t.generation = h.delivered.drop t.since) ∧
        (h.unread t.generation).length ≤ Broker.capacity ∧
        (¬ h.IsRegistered t → ∀ h', Relation.ReflTransGen Move h h' →
          ¬ h'.IsRegistered t ∧ h'.seen t.generation = h.seen t.generation) ∧
        (h.broker.hasEnded t.generation = true ↔ ¬ h.IsRegistered t ∧
          (h.broker.inbox? t.generation = none ∨ h.unread t.generation = []))) ∧
      ∀ h', Move h h' → ∀ t ∈ h.tickets, h.IsRegistered t →
        h'.IsRegistered t ∨ Ends h h' t := by
  have hs := hr.sound
  refine ⟨hs.names, fun t ht => ⟨hs.gapless t ht, hs.whole t ht, hs.bounded t ht, ?_,
    hasEnded_iff h t⟩, fun h' m t ht hreg => ?_⟩
  · exact fun hn h' hm => stays_out hm hs ht hn
  · by_cases hreg' : h'.IsRegistered t
    · exact .inl hreg'
    · exact .inr (m.ends hs ht hreg hreg')

theorem Reachable.move (hr : h.Reachable) (m : Move h h') : h'.Reachable := by
  obtain ⟨id, channel, getters, hm⟩ := hr
  exact ⟨id, channel, getters, hm.tail m⟩

theorem Reachable.publish_iterate (hr : h.Reachable) (e : Event) (n : ℕ) :
    ((fun h : Hub τ => h.publish {} e)^[n] h).Reachable := by
  induction n with
  | zero => exact hr
  | succ n ih =>
    rw [Function.iterate_succ_apply']
    exact ih.move (.publish {} e)

/-- Somebody is too slow and subscribes again under the same name before the old subscription is given
up. -/
theorem gap_free_evicted : ∃ (h : Hub Bool) (t u : Ticket Bool), h.Reachable ∧
    t ∈ h.tickets ∧ u ∈ h.tickets ∧ t.name = u.name ∧ h.delivered.length = 18 ∧
    (h.seen t.generation <+: h.delivered ∧ (h.seen t.generation).length = Broker.capacity ∧
      ¬ h.IsRegistered t) ∧
    h.IsRegistered u ∧ h.seen u.generation = h.delivered.drop 17 := by
  let e : Event := { Event.deleted .runDeleted "run-1" with isLocal := true }
  let t : Ticket Bool := ⟨"agent", 1, false, 0⟩
  let u : Ticket Bool := ⟨"agent", 2, false, 17⟩
  have h₀ : (new Bool "broker-1" "events" []).Reachable := ⟨_, _, _, .refl⟩
  have h₁ := h₀.move (.attend (.subscribe "agent" false))
  have h₂ := (h₁.publish_iterate e 17).move (.attend (.subscribe "agent" false))
  have h₃ := h₂.move (.attend (.giveUp t (by decide +kernel) (.inr (by decide +kernel))))
  have h₄ := h₃.move (.publish {} e)
  have h := h₄.move (.attend (.receive 2))
  obtain ⟨-, hseen, -⟩ := h.gap_free
  have ht := hseen t (by decide +kernel)
  have hu := hseen u (by decide +kernel)
  exact ⟨_, t, u, h, by decide +kernel, by decide +kernel, rfl, by decide +kernel,
    ⟨ht.1, by decide +kernel, by decide +kernel⟩, by decide +kernel, hu.2.1 (by decide +kernel)⟩

end Hub

end Provision
