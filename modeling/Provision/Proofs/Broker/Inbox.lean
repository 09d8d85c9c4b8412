import Mathlib.Data.List.Basic
import Provision.Broker

/-!
# Inboxes and registrations

Everything a subscriber can notice of a broker is whether it is registered and what its inbox holds.
Each operation is described by these two alone.

* `Broker.takes`: whether an inbox takes the next event.
* `Broker.inbox?_deliver`, `Broker.isRegistered_deliver`: an event goes into the inboxes that take it,
  and the other registrations are lost.
* `Broker.isRegistered_unregister_of_ne`: a generation that is given up does not touch another one.
-/

namespace Provision.Broker

variable {b : Broker} {g k : ℕ} {e : Event}

/-- Whether the inbox of a generation takes one more event. -/
def takes (b : Broker) (g : ℕ) : Bool :=
  match b.inbox? g with
  | some i => decide (i.events.length < capacity)
  | none => false

theorem inbox?_generation {i : Inbox} (h : b.inbox? g = some i) : i.generation = g := by
  simpa using List.find?_some h

theorem isRegistered_iff : b.isRegistered g = true ↔ ∃ r ∈ b.registrations, r.generation = g := by
  simp [isRegistered]

theorem find?_map_inbox {f : Inbox → Inbox} (hf : ∀ i, (f i).generation = i.generation)
    (l : List Inbox) : (l.map f).find? (fun i => i.generation == g) =
      (l.find? fun i => i.generation == g).map f := by
  rw [List.find?_map]
  congr 2
  funext i
  exact congrArg (· == g) (hf i)

/-! ## Delivery -/

theorem any_kept : ((b.registrations.filter b.hasRoom).any fun r => r.generation == g) =
    (b.isRegistered g && b.takes g) := by
  rw [Bool.eq_iff_iff, Bool.and_eq_true, isRegistered_iff, List.any_eq_true]
  constructor
  · rintro ⟨r, hr, hg⟩
    obtain rfl : r.generation = g := by simpa using hg
    obtain ⟨hr, hroom⟩ := List.mem_filter.mp hr
    exact ⟨⟨r, hr, rfl⟩, hroom⟩
  · rintro ⟨⟨r, hr, rfl⟩, hroom⟩
    exact ⟨r, List.mem_filter.mpr ⟨hr, hroom⟩, by simp⟩

/-- **Who is left after an event**: those whose inboxes took it. -/
theorem isRegistered_deliver (b : Broker) (e : Event) (g : ℕ) :
    (b.deliver e).isRegistered g = (b.isRegistered g && b.takes g) :=
  any_kept

theorem inbox?_deliver (b : Broker) (e : Event) (g : ℕ) :
    (b.deliver e).inbox? g = (b.inbox? g).map fun i =>
      if (b.isRegistered g && b.takes g) = true then { i with events := i.events ++ [e] } else i := by
  refine (find?_map_inbox (fun i => by split_ifs <;> rfl) _).trans ?_
  refine Option.map_congr fun i hi => ?_
  rw [any_kept, inbox?_generation hi]

theorem registrations_deliver (b : Broker) (e : Event) :
    (b.deliver e).registrations.Sublist b.registrations :=
  List.filter_sublist

theorem mem_inboxes_deliver {i : Inbox} (hi : i ∈ (b.deliver e).inboxes) :
    ∃ j ∈ b.inboxes, i.generation = j.generation := by
  obtain ⟨j, hj, rfl⟩ := List.mem_map.mp hi
  exact ⟨j, hj, by split_ifs <;> rfl⟩

theorem publish_fst (b : Broker) (t : Transport) (e : Event) : (b.publish t e).1 = b.deliver e := by
  unfold publish
  dsimp only
  split_ifs
  · rfl
  · split <;> rfl

/-- The event that a text tells of. -/
def told (b : Broker) (s : Store) (text : String) : Option Event :=
  (Notification.decode? text).bind (b.eventOf? s)

theorem hear_eq (b : Broker) (s : Store) (text : String) :
    b.hear s text = match b.told s text with
      | some e => b.deliver e
      | none => b := rfl

/-! ## Subscribing and leaving -/

theorem subscribe_eq {name : String} {b' : Broker} (h : b.subscribe name = .ok (g, b')) :
    g = b.lastGeneration + 1 ∧ (∀ r ∈ b.registrations, r.name ≠ name) ∧
      b' = { b with
        lastGeneration := g
        registrations := b.registrations ++ [⟨name, g⟩]
        inboxes := b.inboxes ++ [⟨g, []⟩] } := by
  unfold subscribe at h
  split_ifs at h with hn
  cases h
  exact ⟨rfl, by simpa using hn, rfl⟩

theorem mem_unregister {name : String} {r : Registration} :
    r ∈ (b.unregister name g).registrations ↔ r ∈ b.registrations ∧ r ≠ ⟨name, g⟩ := by
  simp [unregister]

theorem isRegistered_unregister_of_ne (b : Broker) (name : String) (h : k ≠ g) :
    (b.unregister name g).isRegistered k = b.isRegistered k := by
  rw [Bool.eq_iff_iff, isRegistered_iff, isRegistered_iff]
  constructor
  · rintro ⟨r, hr, hk⟩
    exact ⟨r, (mem_unregister.mp hr).1, hk⟩
  · rintro ⟨r, hr, hk⟩
    exact ⟨r, mem_unregister.mpr ⟨hr, fun he => h (hk.symm.trans (congrArg _ he))⟩, hk⟩

theorem inbox?_dropInbox (b : Broker) (g : ℕ) : (b.dropInbox g).inbox? g = none := by
  refine List.find?_eq_none.mpr fun i hi => ?_
  simpa using (List.mem_filter.mp hi).2

theorem inbox?_dropInbox_of_ne (b : Broker) (h : k ≠ g) :
    (b.dropInbox g).inbox? k = b.inbox? k := by
  change (b.inboxes.filter _).find? _ = _
  rw [List.find?_filter]
  refine congrArg (b.inboxes.find? ·) (funext fun i => ?_)
  by_cases hk : i.generation = k
  · simp [hk, h]
  · simp [hk]

/-! ## Taking events out -/

theorem receive_eq {b' : Broker} (h : b.receive g = (some e, b')) :
    ∃ rest, b.inbox? g = some ⟨g, e :: rest⟩ ∧ b' = { b with
      inboxes := b.inboxes.map fun i =>
        if i.generation = g then { i with events := rest } else i } := by
  unfold receive at h
  split at h
  · next g' e' rest hi =>
    obtain rfl : g' = g := inbox?_generation hi
    cases h
    exact ⟨rest, hi, rfl⟩
  · cases h

theorem inbox?_taken (b : Broker) (g k : ℕ) (rest : List Event) :
    ({ b with inboxes := b.inboxes.map fun i =>
        if i.generation = g then { i with events := rest } else i } : Broker).inbox? k =
      (b.inbox? k).map fun i => if k = g then { i with events := rest } else i := by
  refine (find?_map_inbox (fun i => by split_ifs <;> rfl) _).trans ?_
  refine Option.map_congr fun i hi => ?_
  rw [inbox?_generation hi]

end Provision.Broker
