import Provision.Proofs.Ledger.Ordered

/-!
# What holds of every ledger

* `Ledger.Vouches`: what an announced event tells about the store of now. It may be out of date, but
  runs only move on, and what was deleted never comes back.
* `Ledger.Grows`: how one ledger becomes another.
* `Ledger.Sound`: the store is ordered and every announced event is vouched for. Every request keeps
  this, provided that no deleted organization is created again (`Sound.request`).
-/

namespace Provision

open Identifier (Issued issued_fresh not_issued_fresh)

/-- No organization is created under the name of a deleted one. -/
def Request.IsFresh (c : Request) (l : Ledger) : Prop :=
  ∀ name, c = .createOrganization name → Event.deleted .organizationDeleted name ∉ l.announced

namespace Ledger

/-- What an event, once announced, tells about the store of now. -/
def Vouches (l : Ledger) (e : Event) : Prop :=
  match e.payload with
  | .run x =>
    Issued Run.stem l.supply x.id ∧ Issued Workspace.stem l.supply x.workspace ∧
      (∀ w ∈ l.store.workspaces, w.id = x.workspace → w.organization = x.organization) ∧
      ∀ r ∈ l.store.runs, r.id = x.id → x.Precedes r
  | .workspace x =>
    Issued Workspace.stem l.supply x.id ∧ (e.type = .workspaceUnlocked → x.lock = none) ∧
      ∀ w ∈ l.store.workspaces, w.id = x.id → w.organization = x.organization
  | .deleted _ name =>
    (e.type = .organizationDeleted → e = Event.deleted .organizationDeleted name ∧
      ∀ o ∈ l.store.organizations, o.name ≠ name) ∧
    (e.type = .workspaceDeleted → Issued Workspace.stem l.supply name ∧
      ∀ w ∈ l.store.workspaces, w.id ≠ name)
  | _ => True

/-- How one ledger becomes another: what is stored then was stored before, perhaps in an earlier
state, or is new. -/
structure Grows (l l' : Ledger) : Prop where
  supply : l.supply ≤ l'.supply
  /-- No organization is created under the name of a deleted one. -/
  organizations : ∀ o' ∈ l'.store.organizations, o' ∈ l.store.organizations ∨
    Event.deleted .organizationDeleted o'.name ∉ l.announced
  /-- Workspaces stay in their organizations. -/
  workspaces : ∀ w' ∈ l'.store.workspaces,
    (∃ w ∈ l.store.workspaces, w'.id = w.id ∧ w'.organization = w.organization) ∨
      ¬ Issued Workspace.stem l.supply w'.id
  /-- Runs move on. -/
  runs : ∀ r' ∈ l'.store.runs,
    (∃ r ∈ l.store.runs, r.Precedes r') ∨ ¬ Issued Run.stem l.supply r'.id
  announced : l.announced <+: l'.announced

namespace Grows

variable {l l' l'' : Ledger}

theorem refl (l : Ledger) : l.Grows l where
  supply := le_rfl
  organizations _ ho := .inl ho
  workspaces w hw := .inl ⟨w, hw, rfl, rfl⟩
  runs r hr := .inl ⟨r, hr, .refl r⟩
  announced := List.prefix_rfl

theorem trans (h : l.Grows l') (h' : l'.Grows l'') : l.Grows l'' where
  supply := h.supply.trans h'.supply
  organizations o ho := by
    rcases h'.organizations o ho with ho | ho
    · exact h.organizations o ho
    · exact .inr fun hm => ho (h.announced.subset hm)
  workspaces w hw := by
    rcases h'.workspaces w hw with ⟨v, hv, hid, ho⟩ | hn
    · rcases h.workspaces v hv with ⟨u, hu, hid', ho'⟩ | hn
      · exact .inl ⟨u, hu, hid.trans hid', ho.trans ho'⟩
      · exact .inr (hid ▸ hn)
    · exact .inr fun hi => hn (hi.mono h.supply)
  runs r hr := by
    rcases h'.runs r hr with ⟨x, hx, hp⟩ | hn
    · rcases h.runs x hx with ⟨y, hy, hp'⟩ | hn
      · exact .inl ⟨y, hy, hp'.trans hp⟩
      · exact .inr (hp.id ▸ hn)
    · exact .inr fun hi => hn (hi.mono h.supply)
  announced := h.announced.trans h'.announced

theorem run (h : l.Grows l') {r : Run} (hr : r ∈ l'.store.runs)
    (hi : Issued Run.stem l.supply r.id) : ∃ x ∈ l.store.runs, x.Precedes r :=
  (h.runs r hr).resolve_right (not_not_intro hi)

theorem workspace (h : l.Grows l') {w : Workspace} (hw : w ∈ l'.store.workspaces)
    (hi : Issued Workspace.stem l.supply w.id) :
    ∃ v ∈ l.store.workspaces, w.id = v.id ∧ w.organization = v.organization :=
  (h.workspaces w hw).resolve_right (not_not_intro hi)

/-- **What was vouched for stays so.** -/
theorem vouches (h : l.Grows l') {e : Event} (he : e.type = .organizationDeleted → e ∈ l.announced)
    (hv : l.Vouches e) : l'.Vouches e := by
  unfold Vouches at hv ⊢
  split
  · next x hx =>
    simp only [hx] at hv
    obtain ⟨hi, hw, ho, hp⟩ := hv
    refine ⟨hi.mono h.supply, hw.mono h.supply, fun w hm hid => ?_, fun r hr hid => ?_⟩
    · obtain ⟨v, hv, hwv, hov⟩ := h.workspace hm (hid ▸ hw)
      exact hov.trans (ho v hv (hwv.symm.trans hid))
    · obtain ⟨y, hy, hyr⟩ := h.run hr (hid ▸ hi)
      exact (hp y hy (hyr.id.symm.trans hid)).trans hyr
  · next x hx =>
    simp only [hx] at hv
    obtain ⟨hi, hu, ho⟩ := hv
    refine ⟨hi.mono h.supply, hu, fun w hw hid => ?_⟩
    obtain ⟨v, hv, hwv, hov⟩ := h.workspace hw (hid ▸ hi)
    exact hov.trans (ho v hv (hwv.symm.trans hid))
  · next relation name hx =>
    simp only [hx] at hv
    obtain ⟨ho, hw⟩ := hv
    refine ⟨fun ht => ?_, fun ht => ?_⟩
    · obtain ⟨heq, ho⟩ := ho ht
      refine ⟨heq, fun o' ho' hn => ?_⟩
      rcases h.organizations o' ho' with ho' | hne
      · exact ho o' ho' hn
      · exact hne (hn ▸ heq ▸ he ht)
    · obtain ⟨hi, hw⟩ := hw ht
      refine ⟨hi.mono h.supply, fun w hm hid => ?_⟩
      obtain ⟨v, hv, hwv, -⟩ := h.workspace hm (hid ▸ hi)
      exact hw v hv (hwv.symm.trans hid)
  · trivial

end Grows

theorem vouches_stored {l : Ledger} (h : l.store.Ordered l.supply) {r : Run}
    (hr : r ∈ l.store.runs) : l.Vouches (Event.runStatus r) := by
  obtain ⟨w, hw, hwid, hwo⟩ := h.home r hr
  refine ⟨h.issuedRuns r hr, hwid ▸ h.issuedWorkspaces w hw, fun v hv he => ?_, fun x hx he => ?_⟩
  · obtain rfl := h.workspace_eq hv hw (he.trans hwid.symm)
    exact hwo
  · obtain rfl := h.run_eq hx hr he
    exact .refl x

/-- What holds of every ledger. -/
structure Sound (l : Ledger) : Prop where
  ordered : l.store.Ordered l.supply
  /-- Every announced event is vouched for. -/
  vouched : ∀ e ∈ l.announced, l.Vouches e

namespace Sound

variable {l l' : Ledger}

theorem empty : ({} : Ledger).Sound where
  ordered := .empty
  vouched _ h := by cases h

theorem of_post (h : l.Sound) {s : Store} {e : Event} (hs : s.Ordered l'.supply)
    (hl : l.announced = l'.announced) (hg : l.Grows (l'.post s e))
    (he : (l'.post s e).Vouches e) : (l'.post s e).Sound where
  ordered := hs
  vouched x hx := by
    rcases List.mem_append.mp hx with hx | hx
    · exact hg.vouches (fun _ => hl ▸ hx) (h.vouched x (hl ▸ hx))
    · rw [List.mem_singleton.mp hx]
      exact he

theorem spend (h : l.Sound) : l.spend.Sound ∧ l.Grows l.spend := by
  have hg : l.Grows l.spend := { Grows.refl l with supply := Nat.le_succ _ }
  refine ⟨⟨h.ordered.mono (Nat.le_succ _) rfl rfl rfl, fun e he => ?_⟩, hg⟩
  exact hg.vouches (fun _ => he) (h.vouched e he)

theorem putWorkspace (h : l.Sound) {w : Workspace} (type : EventType) (w' : Workspace)
    (hw : l.store.workspace? w.id = some w) (hid : w'.id = w.id)
    (ho : w'.organization = w.organization) (ht : type = .workspaceUnlocked → w'.lock = none) :
    (l.putWorkspace type w').Sound ∧ l.Grows (l.putWorkspace type w') := by
  have hm := Store.workspace?_mem hw
  have hg : l.Grows (l.putWorkspace type w') :=
    { Grows.refl l with
      workspaces := by
        intro v hv
        rcases Keyed.mem_replace.mp hv with ⟨rfl, -⟩ | ⟨hv, -⟩
        · exact .inl ⟨w, hm, hid, ho⟩
        · exact .inl ⟨v, hv, rfl, rfl⟩
      announced := List.prefix_append _ _ }
  refine ⟨h.of_post (h.ordered.setWorkspace hm hid ho) rfl hg ⟨?_, ht, ?_⟩, hg⟩
  · exact hid ▸ h.ordered.issuedWorkspaces w hm
  · rintro v hv he
    rcases Keyed.mem_replace.mp hv with ⟨rfl, -⟩ | ⟨-, hne⟩
    · rfl
    · exact absurd he hne

theorem putRun (h : l.Sound) {r r' : Run} (hr : l.store.run? r.id = some r) (hp : r.Precedes r') :
    (l.putRun r').Sound ∧ l.Grows (l.putRun r') := by
  have hm := Store.run?_mem hr
  have hg : l.Grows (l.putRun r') :=
    { Grows.refl l with
      runs := by
        intro v hv
        rcases Keyed.mem_replace.mp hv with ⟨rfl, -⟩ | ⟨hv, -⟩
        · exact .inl ⟨r, hm, hp⟩
        · exact .inl ⟨v, hv, .refl v⟩
      announced := List.prefix_append _ _ }
  have ho := h.ordered.setRun hm hp
  exact ⟨h.of_post ho rfl hg (vouches_stored (l := l.putRun r') ho
    (Keyed.mem_replace.mpr (.inl ⟨rfl, r, hm, hp.id.symm⟩))), hg⟩

theorem addWorkspace (h : l.Sound) (opts : NewWorkspace) {o : Organization}
    (ho : o ∈ l.store.organizations) (hn : o.name = opts.organization) :
    let w := Workspace.new l.supply opts l.clock
    let l' := l.spend.post { l.store with workspaces := l.store.workspaces ++ [w] }
      (Event.ofWorkspace .workspaceCreated w)
    l'.Sound ∧ l.Grows l' := by
  intro w l'
  have hg : l.Grows l' :=
    { Grows.refl l with
      supply := Nat.le_succ _
      workspaces := by
        intro v hv
        rcases List.mem_append.mp hv with hv | hv
        · exact .inl ⟨v, hv, rfl, rfl⟩
        · rw [List.mem_singleton.mp hv]
          exact .inr not_issued_fresh
      announced := List.prefix_append _ _ }
  refine ⟨h.of_post (h.ordered.addWorkspace opts l.clock ho hn) rfl hg ?_, hg⟩
  refine ⟨issued_fresh, (fun ht => by cases ht), fun v hv he => ?_⟩
  rcases List.mem_append.mp hv with hv | hv
  · exact absurd (he ▸ h.ordered.issuedWorkspaces v hv) not_issued_fresh
  · rw [List.mem_singleton.mp hv]

theorem addRun (h : l.Sound) {r : Run} (hid : r.id = Identifier.fresh Run.stem l.supply)
    {w : Workspace} (hw : w ∈ l.store.workspaces) (hr : w.id = r.workspace)
    (ho : w.organization = r.organization) :
    let l' := l.spend.post { l.store with runs := l.store.runs ++ [r] }
      { type := .runCreated, payload := .run r }
    l'.Sound ∧ l.Grows l' := by
  intro l'
  have hg : l.Grows l' :=
    { Grows.refl l with
      supply := Nat.le_succ _
      runs := by
        intro v hv
        rcases List.mem_append.mp hv with hv | hv
        · exact .inl ⟨v, hv, .refl v⟩
        · rw [List.mem_singleton.mp hv, hid]
          exact .inr not_issued_fresh
      announced := List.prefix_append _ _ }
  have ho' := h.ordered.addRun hid hw hr ho
  exact ⟨h.of_post ho' rfl hg (vouches_stored (l := l') ho'
    (List.mem_append_right _ (List.mem_singleton_self r))), hg⟩

theorem remove (h : l.Sound) {s : Store} {e : Event} (hs : s.Ordered l.supply)
    (ho : s.organizations ⊆ l.store.organizations) (hw : s.workspaces ⊆ l.store.workspaces)
    (hr : s.runs ⊆ l.store.runs) (he : (l.post s e).Vouches e) :
    (l.post s e).Sound ∧ l.Grows (l.post s e) := by
  have hg : l.Grows (l.post s e) :=
    { Grows.refl l with
      organizations := fun o hm => .inl (ho hm)
      workspaces := fun w hm => .inl ⟨w, hw hm, rfl, rfl⟩
      runs := fun r hm => .inl ⟨r, hr hm, .refl r⟩
      announced := List.prefix_append _ _ }
  exact ⟨h.of_post hs rfl hg he, hg⟩

/-- **Every effect of a request keeps a ledger sound.** -/
theorem effect (h : l.Sound) {c : Request} (hf : c.IsFresh l) (he : c.Effect l l') :
    l'.Sound ∧ l.Grows l' := by
  cases he with
  | refused => exact ⟨h, .refl l⟩
  | refusedLate => exact h.spend
  | refusedRun => exact h.spend
  | organizationCreated org ho =>
    have hg : l.Grows (l.post { l.store with organizations := l.store.organizations ++ [org] }
        { type := .organizationCreated, payload := .organization org }) :=
      { Grows.refl l with
        organizations := by
          intro o hm
          rcases List.mem_append.mp hm with hm | hm
          · exact .inl hm
          · rw [List.mem_singleton.mp hm]
            exact .inr (hf _ rfl)
        announced := List.prefix_append _ _ }
    exact ⟨h.of_post (h.ordered.addOrganization org ho) rfl hg trivial, hg⟩
  | organizationDeleted name =>
    refine h.remove (h.ordered.dropOrganization name) (List.filter_subset_self _)
      (List.filter_subset_self _) (List.filter_subset_self _) ⟨fun _ => ⟨rfl, ?_⟩, fun ht => by cases ht⟩
    intro o hm
    simpa using (List.mem_filter.mp hm).2
  | workspaceCreated opts o ho hn => exact h.addWorkspace opts ho hn
  | workspaceDeleted id hw =>
    obtain ⟨w, hw, rfl⟩ := hw
    refine h.remove (h.ordered.dropWorkspace w.id) (List.Subset.refl _)
      (List.filter_subset_self _) (List.filter_subset_self _)
      ⟨(fun ht => by cases ht), fun _ => ⟨h.ordered.issuedWorkspaces w hw, ?_⟩⟩
    intro v hm
    simpa using (List.mem_filter.mp hm).2
  | locked w w' holder hw ha =>
    rw [Workspace.acquire_eq ha]
    exact h.putWorkspace _ _ hw rfl rfl fun ht => by cases ht
  | unlocked w w' requester force hw ha =>
    rw [Workspace.release_eq ha]
    exact h.putWorkspace _ _ hw rfl rfl fun _ => rfl
  | currentRunSet w run hw => exact h.putWorkspace _ _ hw rfl rfl fun ht => by cases ht
  | autoApplySet w value hw => exact h.putWorkspace _ _ hw rfl rfl fun ht => by cases ht
  | runCreated request w r hw hr =>
    subst hr
    exact h.addRun rfl (Store.workspace?_mem hw) rfl rfl
  | acted c action r r' hc hr ho => exact h.putRun hr ho.precedes
  | runDeleted r hr hd =>
    exact h.remove (h.ordered.keepRuns _) (List.Subset.refl _) (List.Subset.refl _)
      (List.filter_subset_self _) ⟨(fun ht => by cases ht), fun ht => by cases ht⟩
  | chunkStored chunk s stored hs =>
    obtain ⟨ho, hw, hr⟩ := Store.putChunk_eq hs
    exact h.remove (h.ordered.mono le_rfl ho hw hr) (ho ▸ List.Subset.refl _)
      (hw ▸ List.Subset.refl _) (hr ▸ List.Subset.refl _) trivial

/-- **Every request keeps a ledger sound.** -/
theorem request (h : l.Sound) {c : Request} (hf : c.IsFresh l) :
    (c.perform l).2.Sound ∧ l.Grows (c.perform l).2 :=
  h.effect hf (c.effect l)

end Sound

end Ledger

end Provision
