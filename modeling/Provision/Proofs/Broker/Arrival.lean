import Provision.Broker
import Provision.Proofs.Broker.Inbox
import Provision.Proofs.Json.Texts
import Provision.Proofs.Keyed

/-!
# What arrives of an event

Only the type of an event and the identifier of its payload travel. The node at the other end makes a
reference of them, or loads what has this identifier there.

* `Event.arrival`: what another node makes of an event. `Broker.told_encode`: it is what a broker takes
  from the message about the event, if the message is not its own.
* `Event.Survives`: what such an event has in common with the one that was published.
-/

namespace Provision

open Text (digits? int64? inInt64)

/-- What a node makes of an event of another node. -/
def Event.arrival (getters : List String) (s : Store) (e : Event) : Option Event :=
  if e.type.isDeletion then some (Event.deleted e.type e.payload.id)
  else if getters.contains e.type.relation then
    match s.load e.type.relation e.payload.id with
    | .ok payload => some { type := e.type, payload }
    | .error _ => none
  else none

theorem EventType.ofParts?_relation_action (type : EventType) :
    ofParts? type.relation type.action = some type := by
  cases type <;> decide

theorem Broker.told_encode (b : Broker) (s : Store) (sender : String) (e : Event) :
    b.told s (Notification.ofEvent sender e).encode =
      if sender = b.id then none else e.arrival b.getters s := by
  rw [told, Notification.decode?_encode, Option.bind_some]
  simp only [eventOf?, Notification.ofEvent, EventType.ofParts?_relation_action]
  rfl

/-! ## Numbers of log chunks -/

theorem Text.digits?_toDigits (n : ℕ) : digits? (Nat.toDigits 10 n) = some n := by
  obtain ⟨d, ds, hn, -⟩ := exists_toDigits_eq_cons n
  rw [hn, digits?, ← hn, digitsFrom_toDigits]
  simp

theorem Text.int64?_toString (i : ℤ) : int64? (toString i).toList = (some i).filter inInt64 := by
  cases i with
  | ofNat n =>
    have htext : (toString (Int.ofNat n)).toList = Nat.toDigits 10 n := by simp [toString, Int.repr]
    obtain ⟨d, ds, hn, hd⟩ := exists_toDigits_eq_cons n
    have hread := digits?_toDigits n
    rw [hn] at htext hread
    rw [htext, int64?, hread]
    · rfl
    all_goals
      rintro _ hsign
      cases hsign
      cases hd
  | negSucc n =>
    have htext : (toString (Int.negSucc n)).toList = '-' :: Nat.toDigits 10 (n + 1) := by
      simp [toString, Int.repr]
    rw [htext, int64?, digits?_toDigits]
    rfl

/-! ## Loading -/

/-- Something is stored. -/
def Store.Holds (s : Store) : Payload → Prop
  | .organization org => org ∈ s.organizations
  | .workspace ws => ws ∈ s.workspaces
  | .run r => r ∈ s.runs
  | .chunk c => c ∈ s.chunks
  | .deleted _ _ => False

theorem Store.holds_of_load {s : Store} {relation id : String} {p : Payload}
    (h : s.load relation id = .ok p) : s.Holds p := by
  unfold load at h
  split_ifs at h
  · split at h
    · next o ho =>
      cases h
      exact List.mem_of_find?_eq_some ho
    · cases h
  · split at h
    · next w hw =>
      cases h
      exact List.mem_of_find?_eq_some hw
    · cases h
  · split at h
    · next r hr =>
      cases h
      exact List.mem_of_find?_eq_some hr
    · cases h
  · split at h
    · cases h
    · split at h
      · next c hc =>
        cases h
        exact List.mem_of_find?_eq_some hc
      · cases h

theorem Store.load_chunk_eq_ok_iff {s : Store} {id : String} {p : Payload} :
    s.load "chunk" id = .ok p ↔
      ∃ n c, int64? id.toList = some n ∧ s.chunk? n = some c ∧ p = .chunk c := by
  rw [load, if_neg (by decide), if_neg (by decide), if_neg (by decide)]
  constructor
  · intro h
    split at h
    · cases h
    · next n hn =>
      split at h
      · next c hc =>
        cases h
        exact ⟨n, c, hn, hc, rfl⟩
      · cases h
  · rintro ⟨n, c, hn, hc, rfl⟩
    simp only [hn, hc]

/-- What is loaded has the identifier it was asked for, but for the spelling of numbers. -/
theorem Store.load_id {s : Store} {type : EventType} {id : String} {p : Payload}
    (h : s.load type.relation id = .ok p) :
    p.id = id ∨ type = .chunkCreated ∧ ∃ n, int64? id.toList = some n ∧ p.id = toString n := by
  by_cases hc : type = .chunkCreated
  · subst hc
    obtain ⟨n, c, hn, hc, rfl⟩ := load_chunk_eq_ok_iff.mp h
    have hid : c.id = n := by simpa using List.find?_some hc
    exact .inr ⟨rfl, n, hn, congrArg toString hid⟩
  · left
    unfold load at h
    split_ifs at h with horg hws hrun
    · split at h
      · next o ho =>
        cases h
        simpa [Payload.id] using List.find?_some ho
      · cases h
    · split at h
      · next w hw =>
        cases h
        simpa [Payload.id] using List.find?_some hw
      · cases h
    · split at h
      · next r hr =>
        cases h
        simpa [Payload.id] using List.find?_some hr
      · cases h
    · cases type <;> simp_all [EventType.relation]

theorem Store.load_payload_id {s : Store} {e : Event} {p : Payload}
    (h : s.load e.type.relation e.payload.id = .ok p) :
    p.id = e.payload.id ∨ e.type = .chunkCreated ∧ (∀ c, e.payload ≠ .chunk c) ∧
      ∃ n, int64? e.payload.id.toList = some n ∧ p.id = toString n := by
  rcases load_id h with hid | ⟨htype, n, hn, hid⟩
  · exact .inl hid
  · by_cases hc : ∃ c, e.payload = .chunk c
    · obtain ⟨c, hc⟩ := hc
      rw [hc, Payload.id, Text.int64?_toString, Option.filter_eq_some_iff] at hn
      rw [hid, hc, Payload.id, Option.some.inj hn.1]
      exact .inl rfl
    · exact .inr ⟨htype, fun c h => hc ⟨c, h⟩, n, hn, hid⟩

theorem Store.load_stored {s : Store} (hs : (s.chunks.map StoredChunk.id).Nodup) {c : StoredChunk}
    (hc : c ∈ s.chunks) (hid : inInt64 c.id = true) :
    s.load "chunk" (toString c.id) = .ok (.chunk c) := by
  obtain ⟨d, hd⟩ := Option.isSome_iff_exists.mp
    (List.find?_isSome.mpr ⟨c, hc, beq_self_eq_true c.id⟩ : (s.chunk? c.id).isSome = true)
  have heq : d.id = c.id := by simpa using List.find?_some hd
  obtain rfl := List.inj_on_of_nodup_map hs (List.mem_of_find?_eq_some hd) hc heq
  have hread : int64? (toString d.id).toList = some d.id := by
    rw [Text.int64?_toString, Option.filter_some_pos hid]
  exact load_chunk_eq_ok_iff.mpr ⟨d.id, d, hread, hd, rfl⟩

/-! ## Arrivals -/

namespace Event

variable {getters : List String} {s : Store} {e a : Event}

/-- What another node gets to see of an event. -/
structure Survives (getters : List String) (s : Store) (e : Event) (r : Option Event) : Prop where
  /-- A deletion arrives, and everything that can be loaded. -/
  isSome_iff : r.isSome = true ↔ e.type.isDeletion = true ∨
    e.type.relation ∈ getters ∧ ∃ p, s.load e.type.relation e.payload.id = .ok p
  type : ∀ a ∈ r, a.type = e.type
  /-- The identifier is the same, but for the spelling of a number that a chunk event gives for
  something other than a stored chunk. -/
  id : ∀ a ∈ r, a.payload.id = e.payload.id ∨
    e.type = .chunkCreated ∧ (∀ c, e.payload ≠ .chunk c) ∧
      ∃ n, int64? e.payload.id.toList = some n ∧ a.payload.id = toString n
  /-- A deletion arrives as a reference of its own relation. -/
  deletion : e.type.isDeletion = true → r = some (deleted e.type e.payload.id)
  /-- A reference of the relation of its event arrives as it is. -/
  reference : e.type.isDeletion = true → ∀ id, e.payload = .deleted e.type.relation id → r = some e
  /-- A log chunk that is still stored arrives as it is. -/
  chunk : "chunk" ∈ getters → e.type = .chunkCreated → ∀ c ∈ s.chunks, inInt64 c.id = true →
    e.payload = .chunk c → r = some e

theorem arrival_of_isDeletion (h : e.type.isDeletion = true) :
    e.arrival getters s = some (deleted e.type e.payload.id) :=
  if_pos h

theorem arrival_eq_some_iff (h : ¬ e.type.isDeletion = true) : e.arrival getters s = some a ↔
    e.type.relation ∈ getters ∧
      ∃ p, s.load e.type.relation e.payload.id = .ok p ∧ a = { type := e.type, payload := p } := by
  rw [arrival, if_neg h, Option.ite_none_right_eq_some, List.contains_iff_mem]
  refine and_congr_right fun _ => ?_
  cases s.load e.type.relation e.payload.id with
  | ok p => simp [eq_comm]
  | error _ => simp

theorem eq_of_isLocal (h : e.isLocal = false) :
    ({ type := e.type, payload := e.payload } : Event) = e := by
  rw [← h]

theorem survives_arrival (hs : (s.chunks.map StoredChunk.id).Nodup) (hl : e.isLocal = false) :
    Survives getters s e (e.arrival getters s) := by
  by_cases hd : e.type.isDeletion = true
  · have hr : e.arrival getters s = some (deleted e.type e.payload.id) := arrival_of_isDeletion hd
    have hnot : e.type ≠ .chunkCreated := fun h => by rw [h] at hd; revert hd; decide
    rw [hr]
    refine ⟨by simp [hd], ?_, ?_, fun _ => rfl, fun _ id hid => ?_, fun _ h => absurd h hnot⟩
    · rintro a ⟨⟩
      rfl
    · rintro a ⟨⟩
      exact .inl rfl
    · rw [deleted, hid, Payload.id, ← hid, eq_of_isLocal hl]
  · have hiff {a : Event} : e.arrival getters s = some a ↔ _ := arrival_eq_some_iff hd
    refine ⟨?_, fun a ha => ?_, fun a ha => ?_, fun h => absurd h hd, fun h => absurd h hd, ?_⟩
    · rw [Option.isSome_iff_exists, or_iff_right hd]
      constructor
      · rintro ⟨a, ha⟩
        obtain ⟨hmem, p, hp, -⟩ := hiff.mp ha
        exact ⟨hmem, p, hp⟩
      · rintro ⟨hmem, p, hp⟩
        exact ⟨_, hiff.mpr ⟨hmem, p, hp, rfl⟩⟩
    · obtain ⟨-, p, -, rfl⟩ := hiff.mp ha
      rfl
    · obtain ⟨-, p, hp, rfl⟩ := hiff.mp ha
      exact Store.load_payload_id hp
    · intro hmem htype c hc hid hpayload
      refine hiff.mpr ⟨htype ▸ hmem, .chunk c, ?_, ?_⟩
      · rw [htype, hpayload]
        exact Store.load_stored hs hc hid
      · rw [← hpayload, eq_of_isLocal hl]

end Event

end Provision
