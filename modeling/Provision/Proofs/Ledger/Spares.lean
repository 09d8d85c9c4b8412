import Provision.Proofs.Ledger.Admission

/-!
# What a scheduler leaves alone

* `Ledger.Ended`, `Ledger.Eligible`: what may be said of a run by its identifier, be it stored or not.
* `Ledger.Spares`: no run ends, and nothing is created or removed. This is so whenever a workspace is
  replaced or the plan of a run is queued.
-/

namespace Provision

open Identifier (Issued)

/-- The run that an event announces as created. -/
def Event.created? (e : Event) : Option String :=
  match e.type, e.payload with
  | .runCreated, .run x => some x.id
  | _, _ => none

namespace Ledger

variable {l l' : Ledger} {o v run : String}

/-- The runs that were announced as created, oldest first. -/
def created (l : Ledger) : List String :=
  l.announced.filterMap Event.created?

theorem created_append {news : List Event} (h : l'.announced = l.announced ++ news) :
    l'.created = l.created ++ news.filterMap Event.created? := by
  rw [created, h, List.filterMap_append]
  rfl

/-- The run is done or gone. -/
def Ended (l : Ledger) (run : String) : Prop :=
  ∀ r ∈ l.store.runs, r.id = run → r.isDone = true

instance (l : Ledger) (run : String) : Decidable (l.Ended run) :=
  inferInstanceAs (Decidable (∀ r ∈ l.store.runs, r.id = run → r.isDone = true))

/-- The run, as long as it is stored, is one that the queue of the workspace admits. -/
def Eligible (l : Ledger) (o v run : String) : Prop :=
  Issued Run.stem l.supply run ∧ ∀ r ∈ l.store.runs, r.id = run →
    r.workspace = v ∧ r.organization = o ∧ r.speculative = false

theorem not_ended_iff : ¬ l.Ended run ↔ ∃ r ∈ l.store.runs, r.id = run ∧ r.isDone = false := by
  unfold Ended
  push Not
  simp

theorem not_ended_of_mem_unfinishedOf (h : run ∈ l.store.unfinishedOf v) : ¬ l.Ended run := by
  obtain ⟨r, hr, hid, -, -, hd⟩ := Store.mem_unfinishedOf.mp h
  exact not_ended_iff.mpr ⟨r, hr, hid, hd⟩

theorem ended_of_gone (h : l.store.run? run = none) : l.Ended run :=
  fun r hr hid => absurd hid (Keyed.find?_eq_none_iff.mp h r hr)

/-- A run that a queue admits is one that it should track, unless it has ended. -/
theorem Eligible.mem_unfinishedOf (h : l.Eligible o v run) (he : ¬ l.Ended run) :
    run ∈ l.store.unfinishedOf v := by
  obtain ⟨r, hr, hid, hd⟩ := not_ended_iff.mp he
  obtain ⟨hv, -, hs⟩ := h.2 r hr hid
  exact Store.mem_unfinishedOf.mpr ⟨r, hr, hid, hv, hs, hd⟩

theorem ended_iff (h : l.Sound) {r : Run} (hr : l.store.run? run = some r) :
    l.Ended run ↔ r.isDone = true := by
  refine ⟨fun he => he r (Store.run?_mem hr) (Store.run?_id hr), fun hd x hx hid => ?_⟩
  rwa [h.ordered.run_eq hx (Store.run?_mem hr) (hid.trans (Store.run?_id hr).symm)]

theorem ended_putRun_queued {r : Run} (hr : l.store.run? r.id = some r) (hp : r.status = .pending)
    (now : Instant) : (l.putRun (r.queued now)).Ended run ↔ l.Ended run := by
  have hnd : r.isDone = false := by rw [Run.isDone, hp]; rfl
  have hmem := fun x => mem_runs_putRun (x := x) hr (r.queued_precedes hp now).id
  constructor
  · intro he x hx hid
    by_cases hxr : x.id = r.id
    · have hq := he _ ((hmem _).mpr (.inl rfl)) (hxr ▸ hid)
      cases hq
    · exact he x ((hmem x).mpr (.inr ⟨hx, hxr⟩)) hid
  · intro he x hx hid
    rcases (hmem x).mp hx with rfl | ⟨hx, -⟩
    · exact absurd (he r (Store.run?_mem hr) hid) (by simp [hnd])
    · exact he x hx hid

theorem Eligible.mono (h : l.Eligible o v run) (hg : l.Grows l') : l'.Eligible o v run := by
  refine ⟨h.1.mono hg.supply, fun r hr hid => ?_⟩
  obtain ⟨x, hx, hp⟩ := hg.run hr (hid ▸ h.1)
  obtain ⟨hw, ho, hs⟩ := h.2 x hx (hp.id.symm.trans hid)
  exact ⟨hp.workspace.trans hw, hp.organization.trans ho, hp.speculative.trans hs⟩

theorem Vouches.issued_of_concerns {e : Event} (h : l.Vouches e) (hc : e.Concerns v) :
    Issued Workspace.stem l.supply v := by
  unfold Event.Concerns at hc
  split at hc
  · next x hp =>
    rw [Vouches, hp] at h
    exact hc ▸ h.2.1
  · next x hp =>
    rw [Vouches, hp] at h
    exact hc ▸ h.1
  · exact hc.elim

theorem Vouches.eligible {e : Event} {x : Run} (h : l.Vouches e) (he : e.payload = .run x)
    (hs : x.speculative = false) : l.Eligible x.organization x.workspace x.id := by
  simp only [Vouches, he] at h
  obtain ⟨hi, -, -, hp⟩ := h
  refine ⟨hi, fun r hr hid => ?_⟩
  have hxr := hp r hr hid
  exact ⟨hxr.workspace, hxr.organization, hxr.speculative.trans hs⟩

theorem Vouches.ended {e : Event} {x : Run} (h : l.Vouches e) (he : e.payload = .run x)
    (hd : x.isDone = true) : l.Ended x.id := by
  simp only [Vouches, he] at h
  exact fun r hr hid => (h.2.2.2 r hr hid).done hd

/-- No run ends, and nothing is created or removed. -/
structure Spares (l l' : Ledger) : Prop where
  /-- The same runs have ended. -/
  ended : ∀ run, l'.Ended run ↔ l.Ended run
  runs : l'.store.runs.map Run.id = l.store.runs.map Run.id
  workspaces : l'.store.workspaces.map Workspace.id = l.store.workspaces.map Workspace.id
  organizations : l'.store.organizations = l.store.organizations
  /-- No run is announced as created. -/
  created : l'.created = l.created

namespace Spares

variable {l'' : Ledger}

theorem refl (l : Ledger) : l.Spares l :=
  ⟨fun _ => .rfl, rfl, rfl, rfl, rfl⟩

theorem trans (h : l.Spares l') (h' : l'.Spares l'') : l.Spares l'' :=
  ⟨fun run => (h'.ended run).trans (h.ended run), h'.runs.trans h.runs,
    h'.workspaces.trans h.workspaces, h'.organizations.trans h.organizations,
    h'.created.trans h.created⟩

theorem run? (h : l.Spares l') (run : String) :
    (l'.store.run? run).isSome = (l.store.run? run).isSome :=
  Bool.eq_iff_iff.mpr (Keyed.isSome_find?_iff.trans (h.runs ▸ Keyed.isSome_find?_iff.symm))

theorem workspace? (h : l.Spares l') (v : String) :
    (l'.store.workspace? v).isSome = (l.store.workspace? v).isSome :=
  Bool.eq_iff_iff.mpr (Keyed.isSome_find?_iff.trans (h.workspaces ▸ Keyed.isSome_find?_iff.symm))

theorem run_of (h : l.Spares l') (hs : l.Sound) (hg : l.Grows l') {r : Run}
    (hr : r ∈ l'.store.runs) : ∃ x ∈ l.store.runs, x.Precedes r := by
  have hm : r.id ∈ l'.store.runs.map Run.id := List.mem_map_of_mem hr
  rw [h.runs] at hm
  obtain ⟨x, hx, hid⟩ := List.mem_map.mp hm
  exact hg.run hr (hid ▸ hs.ordered.issuedRuns x hx)

theorem workspace_of (h : l.Spares l') (hs : l.Sound) (hg : l.Grows l') {w : Workspace}
    (hw : w ∈ l'.store.workspaces) :
    ∃ v ∈ l.store.workspaces, w.id = v.id ∧ w.organization = v.organization := by
  have hm : w.id ∈ l'.store.workspaces.map Workspace.id := List.mem_map_of_mem hw
  rw [h.workspaces] at hm
  obtain ⟨v, hv, hid⟩ := List.mem_map.mp hm
  exact hg.workspace hw (hid ▸ hs.ordered.issuedWorkspaces v hv)

theorem workspace_to (h : l.Spares l') (hs : l.Sound) (hg : l.Grows l') {v : Workspace}
    (hv : v ∈ l.store.workspaces) :
    ∃ w ∈ l'.store.workspaces, w.id = v.id ∧ w.organization = v.organization := by
  have hm : v.id ∈ l.store.workspaces.map Workspace.id := List.mem_map_of_mem hv
  rw [← h.workspaces] at hm
  obtain ⟨w, hw, hid⟩ := List.mem_map.mp hm
  obtain ⟨u, hu, hwu, ho⟩ := h.workspace_of hs hg hw
  rw [hs.ordered.workspace_eq hu hv (hwu.symm.trans hid)] at ho
  exact ⟨w, hw, hid, ho⟩

theorem putWorkspace (type : EventType) (w : Workspace) : l.Spares (l.putWorkspace type w) :=
  ⟨fun _ => .rfl, rfl, Keyed.map_key_replace, rfl,
    (created_append rfl).trans (by cases type <;> exact List.append_nil _)⟩

theorem putRun_queued {r : Run} (hr : l.store.run? r.id = some r) (hp : r.status = .pending)
    (now : Instant) : l.Spares (l.putRun (r.queued now)) :=
  ⟨fun _ => ended_putRun_queued hr hp now, Keyed.map_key_replace, rfl, rfl,
    (created_append rfl).trans (List.append_nil _)⟩

theorem accept {r : Run} (hr : l.store.run? r.id = some r) (hp : r.status = .pending)
    (w : Workspace) : l.Spares (l.accept w r) := by
  have hr₁ : (l.putWorkspace .workspaceLocked
      { w with lock := some (.run r.id) }).store.run? r.id = some r := hr
  have h := (putWorkspace _ _).trans (putRun_queued hr₁ hp l.clock)
  unfold Ledger.accept
  dsimp only
  split_ifs
  · exact h
  · exact h.trans (putWorkspace _ _)

end Spares

end Ledger

end Provision
