import Mathlib.Logic.Relation
import Provision.Proofs.Ledger.Spares

/-!
# The course of a ledger

* `Ledger.Move`: the clock is read anew, or somebody makes a call. `Ledger.Reachable`: the ledgers that
  come about in this way. They are sound.
* `Request.Effect.active_of`, `Request.Effect.lock_of`: no run becomes active and no run is given a lock
  unless a scheduler asks for it.
* `Ledger.InOrder`: the runs are stored in the order in which they were created. Moves keep this.
-/

namespace Provision

open Identifier (Issued not_issued_fresh)

/-- One thing that happens to a ledger: the clock is read anew, or a call is made that is permitted. No
name of a deleted organization is used again. -/
inductive Ledger.Move (permits : Request → Prop) (l : Ledger) : Ledger → Prop
  /-- The clock is read anew. -/
  | tick (now : Instant) : Move permits l { l with clock := now }
  /-- A call is made. -/
  | request (c : Request) : permits c → c.IsFresh l → Move permits l (c.perform l).2

/-- The ledgers that come about by calls, whoever makes them. -/
def Ledger.Reachable (l : Ledger) : Prop :=
  Relation.ReflTransGen (Ledger.Move fun _ => True) {} l

namespace Ledger

variable {permits : Request → Prop} {l l' : Ledger}

theorem Move.mono {permits' : Request → Prop} (h : l.Move permits l')
    (hp : ∀ c, permits c → permits' c) : l.Move permits' l' := by
  cases h with
  | tick now => exact .tick now
  | request c hc hf => exact .request c (hp c hc) hf

/-- **Every move keeps a ledger sound.** -/
theorem Move.sound (h : l.Move permits l') (hs : l.Sound) : l'.Sound ∧ l.Grows l' := by
  cases h with
  | tick now =>
    exact ⟨⟨hs.ordered, hs.vouched⟩, le_rfl, fun _ ho => .inl ho, fun w hw => .inl ⟨w, hw, rfl, rfl⟩,
      fun r hr => .inl ⟨r, hr, .refl r⟩, List.prefix_rfl⟩
  | request c _ hf => exact hs.request hf

/-- **Every ledger that comes about is sound.** -/
theorem Reachable.sound (h : l.Reachable) : l.Sound := by
  induction h with
  | refl => exact .empty
  | tail _ hm ih => exact (hm.sound ih).1

end Ledger

namespace Request.Effect

variable {c : Request} {l l' : Ledger} (he : c.Effect l l')

include he

theorem announced : l.announced <+: l'.announced := by
  cases he with
  | refused | refusedLate | refusedRun => exact List.prefix_rfl
  | _ => exact List.prefix_append _ _

/-- **No run becomes active** unless its plan is queued. -/
theorem active_of (hc : ∀ run, c ≠ .enqueuePlan run) {r' : Run} (hr : r' ∈ l'.store.runs)
    (ha : r'.isActive = true) : ∃ r ∈ l.store.runs, r.Precedes r' ∧ r.isActive = true := by
  cases he with
  | refused | refusedLate | refusedRun | organizationCreated | workspaceCreated | locked | unlocked
  | currentRunSet | autoApplySet => exact ⟨r', hr, .refl r', ha⟩
  | organizationDeleted | workspaceDeleted | runDeleted =>
    exact ⟨r', List.mem_of_mem_filter hr, .refl r', ha⟩
  | runCreated request w r hw hr' =>
    rcases List.mem_append.mp hr with hr | hr
    · exact ⟨r', hr, .refl r', ha⟩
    · obtain rfl := List.mem_singleton.mp hr
      have hb := ((Run.isActive_iff r').mp ha).2.1
      rw [hr'] at hb
      exact absurd rfl hb
  | acted c action r x hact hrun ho =>
    rcases Keyed.mem_replace.mp hr with ⟨rfl, -⟩ | ⟨hr, -⟩
    · refine ⟨r, Store.run?_mem hrun, ho.precedes, ho.active ?_ ha⟩
      rintro rfl
      cases c <;> cases hact
      exact hc _ rfl
    · exact ⟨r', hr, .refl r', ha⟩
  | chunkStored chunk s stored hs =>
    obtain ⟨-, -, hruns⟩ := Store.putChunk_eq hs
    have hr : r' ∈ s.runs := hr
    exact ⟨r', hruns ▸ hr, .refl r', ha⟩

/-- **No run is given a lock** by users and agents. -/
theorem lock_of (hc : c.IsOutside) {w' : Workspace} (hw : w' ∈ l'.store.workspaces) {run : String}
    (hl : w'.lock = some (.run run)) :
    ∃ w ∈ l.store.workspaces, w.id = w'.id ∧ w.lock = some (.run run) := by
  cases he with
  | refused | refusedLate | refusedRun | organizationCreated | runCreated | runDeleted | acted =>
    exact ⟨w', hw, rfl, hl⟩
  | organizationDeleted | workspaceDeleted => exact ⟨w', List.mem_of_mem_filter hw, rfl, hl⟩
  | workspaceCreated =>
    rcases List.mem_append.mp hw with hw | hw
    · exact ⟨w', hw, rfl, hl⟩
    · rw [List.mem_singleton.mp hw] at hl
      cases hl
  | locked w x holder hx ha =>
    rcases Keyed.mem_replace.mp hw with ⟨rfl, -⟩ | ⟨hw, -⟩
    · rw [Workspace.acquire_eq ha] at hl
      obtain rfl := Option.some.inj hl
      cases hc
    · exact ⟨w', hw, rfl, hl⟩
  | unlocked w x requester force hx ha =>
    rcases Keyed.mem_replace.mp hw with ⟨rfl, -⟩ | ⟨hw, -⟩
    · rw [Workspace.release_eq ha] at hl
      cases hl
    · exact ⟨w', hw, rfl, hl⟩
  | currentRunSet w run hx | autoApplySet w value hx =>
    rcases Keyed.mem_replace.mp hw with ⟨rfl, -⟩ | ⟨hw, -⟩
    · exact ⟨w, Store.workspace?_mem hx, rfl, hl⟩
    · exact ⟨w', hw, rfl, hl⟩
  | chunkStored chunk s stored hs =>
    obtain ⟨-, hws, -⟩ := Store.putChunk_eq hs
    have hw : w' ∈ s.workspaces := hw
    exact ⟨w', hws ▸ hw, rfl, hl⟩

end Request.Effect

/-! ## The order of runs -/

namespace Ledger

variable {l l' : Ledger} {news : List Event}

/-- The runs are stored in the order in which they were created. -/
structure InOrder (l : Ledger) : Prop where
  /-- Every run is created once. -/
  once : l.created.Nodup
  /-- The stored runs are in this order. -/
  stored : (l.store.runs.map Run.id).Sublist l.created

theorem InOrder.empty : ({} : Ledger).InOrder :=
  ⟨List.nodup_nil, List.Sublist.refl []⟩

theorem Sound.issued_of_mem_created (h : l.Sound) {run : String} (hr : run ∈ l.created) :
    Issued Run.stem l.supply run := by
  obtain ⟨e, he, hc⟩ := List.mem_filterMap.mp hr
  have hv := h.vouched e he
  unfold Event.created? at hc
  split at hc
  · next x _ hp =>
    obtain rfl := Option.some.inj hc
    rw [Vouches, hp] at hv
    exact hv.1
  · cases hc

theorem InOrder.sublist (h : l.InOrder) (hc : l'.created = l.created)
    (hr : (l'.store.runs.map Run.id).Sublist (l.store.runs.map Run.id)) : l'.InOrder :=
  ⟨hc ▸ h.once, hc ▸ hr.trans h.stored⟩

theorem InOrder.spares (h : l.InOrder) (hsp : l.Spares l') : l'.InOrder :=
  h.sublist hsp.created (hsp.runs ▸ List.Sublist.refl _)

theorem InOrder.announced (h : l.InOrder) (ha : l'.announced = l.announced ++ news)
    (hn : ∀ e ∈ news, e.created? = none)
    (hr : (l'.store.runs.map Run.id).Sublist (l.store.runs.map Run.id)) : l'.InOrder := by
  refine h.sublist ?_ hr
  rw [created_append ha, List.filterMap_eq_nil_iff.mpr hn, List.append_nil]

theorem InOrder.addRun (h : l.InOrder) (hs : l.Sound) {r : Run}
    (hid : r.id = Identifier.fresh Run.stem l.supply) :
    (l.spend.post { l.store with runs := l.store.runs ++ [r] }
      { type := .runCreated, payload := .run r }).InOrder := by
  have hc : (l.spend.post { l.store with runs := l.store.runs ++ [r] }
      { type := .runCreated, payload := .run r }).created = l.created ++ [r.id] :=
    List.filterMap_append
  refine ⟨?_, ?_⟩
  · rw [hc]
    refine List.nodup_append.mpr ⟨h.once, List.nodup_singleton _, fun a ha b hb hab => ?_⟩
    rw [hab, List.mem_singleton.mp hb, hid] at ha
    exact not_issued_fresh (hs.issued_of_mem_created ha)
  · rw [hc]
    exact (List.map_append : (l.store.runs ++ [r]).map Run.id = _) ▸
      h.stored.append (List.Sublist.refl [r.id])

/-- **Runs stay in the order in which they were created.** -/
theorem InOrder.effect (h : l.InOrder) (hs : l.Sound) {c : Request} (he : c.Effect l l') :
    l'.InOrder := by
  cases he with
  | refused | refusedLate | refusedRun =>
    exact h.announced (List.append_nil _).symm (fun e he => by cases he) (List.Sublist.refl _)
  | organizationCreated | workspaceCreated | locked | unlocked | currentRunSet | autoApplySet =>
    exact h.announced rfl (by simp [Event.created?, Event.ofWorkspace]) (List.Sublist.refl _)
  | organizationDeleted | workspaceDeleted | runDeleted =>
    exact h.announced rfl (by simp [Event.created?, Event.deleted]) (List.filter_sublist.map _)
  | runCreated request w r hw hr => exact h.addRun hs (hr ▸ rfl)
  | acted c action r r' hact hr ho =>
    refine h.announced rfl (by simp [Event.created?, Event.runStatus]) ?_
    rw [show (l.putRun r').store.runs.map Run.id = _ from Keyed.map_key_replace]
  | chunkStored chunk s stored hc =>
    obtain ⟨-, -, hruns⟩ := Store.putChunk_eq hc
    exact h.announced rfl (by simp [Event.created?]) (hruns ▸ List.Sublist.refl _)

theorem InOrder.move {permits : Request → Prop} (h : l.InOrder) (hs : l.Sound)
    (hm : l.Move permits l') : l'.InOrder := by
  cases hm with
  | tick now => exact ⟨h.once, h.stored⟩
  | request c _ _ => exact h.effect hs (c.effect l)

theorem InOrder.unfinishedOf (h : l.InOrder) (v : String) :
    (l.store.unfinishedOf v).Sublist l.created :=
  ((List.filter_sublist.trans List.filter_sublist).map _).trans h.stored

end Ledger

namespace Ledger

/-! ## Several calls -/

variable {permits : Request → Prop} {l : Ledger}

/-- The ledger after several calls. -/
def after (l : Ledger) : List Request → Ledger
  | [] => l
  | c :: calls => ((c.perform l).2).after calls

theorem announced_after (l : Ledger) (calls : List Request) :
    l.announced <+: (l.after calls).announced := by
  induction calls generalizing l with
  | nil => exact List.prefix_rfl
  | cons c calls ih => exact (c.effect l).announced.trans (ih _)

theorem moves_after {calls : List Request} (hp : ∀ c ∈ calls, permits c)
    (hd : ∀ e ∈ (l.after calls).announced, e.type ≠ .organizationDeleted) :
    Relation.ReflTransGen (Move permits) l (l.after calls) := by
  induction calls generalizing l with
  | nil => exact .refl
  | cons c calls ih =>
    have hf : c.IsFresh l := fun name _ hm =>
      hd _ ((announced_after l (c :: calls)).subset hm) rfl
    exact .head (.request c (hp c List.mem_cons_self) hf)
      (ih (fun x hx => hp x (List.mem_cons_of_mem c hx)) hd)

theorem moves_call {α : Type} {c : Request} {x : Service α} (hc : c.perform = do let _ ← x)
    (hp : permits c) (hf : c.IsFresh l) : Relation.ReflTransGen (Move permits) l (x l).2 := by
  have hm : l.Move permits (c.perform l).2 := .request c hp hf
  rw [hc, Effect.snd_discard] at hm
  exact .single hm

/-- A ledger with one run, which is pending. -/
def firstRun : Ledger :=
  ({} : Ledger).after [
    .createOrganization "acme",
    .createWorkspace { name := "prod", organization := "acme" },
    .createRun { workspace := Identifier.fresh Workspace.stem 0 }]

end Ledger

end Provision
