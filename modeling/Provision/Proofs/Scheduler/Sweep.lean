import Provision.Proofs.Scheduler.Seed

/-!
# Seeding all queues

A seed does the workspaces one after the other, and what it does to one of them depends on nothing
that belongs to another.

* `Scheduler.Tended`: a workspace was seeded, and not touched before or after.
* `Scheduler.Swept`: so were all workspaces of some organizations (`Scheduler.seedOrganization_swept`).
* `Scheduler.Reseeded`: so were all workspaces, and the other queues are gone. This is what a seed comes
  to unless it is refused, and then a workspace is crowded (`Scheduler.seed_reseeded`).
-/

namespace Provision.Scheduler

open Effect

variable {o v : String} {σ σ₁ σ' : Roster × Ledger} {w : Workspace}

theorem Good.queue?_eq_none (hg : Good σ) (hw : w ∈ σ.2.store.workspaces) (ho : w.organization ≠ o) :
    σ.1.queue? o w.id = none := by
  rcases hq : σ.1.queue? o w.id with _ | q
  · rfl
  · exact absurd ((hg.fits o w.id q hq).place w hw rfl) ho

/-- A workspace was seeded, and not touched before or after. -/
inductive Tended (w : Workspace) (σ σ' : Roster × Ledger) : Prop
  | intro (q : Queue) (l : Ledger) (σ₁ σ₂ : Roster × Ledger) :
      Apart w.organization w.id σ σ₁ → Good σ₁ → Seeded w q l σ₁ σ₂ →
      Apart w.organization w.id σ₂ σ' → Tended w σ σ'

theorem Tended.after (h : Tended w σ₁ σ') (ha : Apart w.organization w.id σ σ₁) : Tended w σ σ' := by
  obtain ⟨q, l, σ₂, σ₃, ha₁, hg, hs, ha₂⟩ := h
  exact ⟨q, l, σ₂, σ₃, ha.trans ha₁, hg, hs, ha₂⟩

theorem Tended.before (h : Tended w σ σ₁) (ha : Apart w.organization w.id σ₁ σ') : Tended w σ σ' := by
  obtain ⟨q, l, σ₂, σ₃, ha₁, hg, hs, ha₂⟩ := h
  exact ⟨q, l, σ₂, σ₃, ha₁, hg, hs, ha₂.trans ha⟩

theorem Apart.mem_workspaces (ha : Apart o w.id σ σ') (hg : Good σ) (hg' : Good σ')
    (hw : w ∈ σ.2.store.workspaces) : w ∈ σ'.2.store.workspaces := by
  have h := ha.ledger.workspace
  rw [hg.sound.ordered.workspace?_eq_some_iff.mpr ⟨hw, rfl⟩] at h
  exact (hg'.sound.ordered.workspace?_eq_some_iff.mp h).1

/-! ## The workspaces of an organization -/

/-- **Several workspaces are seeded** one after the other, unless one of them is crowded. -/
theorem seed_each (hg : Good σ) {ws : List Workspace} (hn : (ws.map Workspace.id).Nodup)
    (hw : ∀ w ∈ ws, w ∈ σ.2.store.workspaces) :
    (∃ σ', ws.forM seedWorkspace σ = (.ok (), σ') ∧ Good σ' ∧ σ.2.Grows σ'.2 ∧ σ.2.Spares σ'.2 ∧
        (∀ w ∈ ws, Tended w σ σ') ∧ ∀ o u, u ∉ ws.map Workspace.id → Apart o u σ σ') ∨
      ∃ e σ', ws.forM seedWorkspace σ = (.error e, σ') ∧ Good σ' ∧ ∃ w ∈ ws, σ.2.Crowded w.id := by
  induction ws generalizing σ with
  | nil =>
    exact .inl ⟨σ, rfl, hg, .refl _, .refl _, (fun _ h => by cases h), fun o u _ => .refl o u σ⟩
  | cons w ws ih =>
    obtain ⟨hwn, hn⟩ := List.nodup_cons.mp hn
    have hw₀ := hw w List.mem_cons_self
    rcases seedWorkspace_seeded hg (hg.sound.ordered.workspace?_eq_some_iff.mpr ⟨hw₀, rfl⟩) with
      ⟨hc, e, he⟩ | ⟨q, l, σ₁, hok, hs⟩
    · exact .inr ⟨e, σ, bind_error he, hg, w, List.mem_cons_self, hc⟩
    have hc := hs.confined
    have hne : ∀ x ∈ ws, x.id ≠ w.id := fun x hx h => hwn (h ▸ List.mem_map_of_mem hx)
    have hforM : (w :: ws).forM seedWorkspace σ = ws.forM seedWorkspace σ₁ := bind_ok hok
    rcases ih hc.good hn fun x hx => (hc.of_ne x.organization (hne x hx)).mem_workspaces hg hc.good
        (hw x (List.mem_cons_of_mem w hx)) with
      ⟨σ', hok', hg', hgr, hsp, ht, ha⟩ | ⟨e, σ', he, hg', x, hx, hcx⟩
    · refine .inl ⟨σ', hforM.trans hok', hg', hc.grows.trans hgr, hc.spares.trans hsp,
        fun x hx => ?_, fun o u hu => ?_⟩
      · rcases List.mem_cons.mp hx with rfl | hx
        · exact ⟨q, l, σ, σ₁, .refl _ _ _, hg, hs, ha _ _ hwn⟩
        · exact (ht x hx).after (hc.of_ne _ (hne x hx))
      · rw [List.map_cons, List.mem_cons, not_or] at hu
        exact (hc.of_ne o hu.1).trans (ha o u hu.2)
    · exact .inr ⟨e, σ', hforM.trans he, hg', x, List.mem_cons_of_mem w hx,
        (hc.apart x.id (hne x hx)).crowded.mp hcx⟩

/-- The workspaces of some organizations were seeded, and their other queues are gone. -/
structure Swept (names : List String) (σ σ' : Roster × Ledger) : Prop where
  good : Good σ'
  grows : σ.2.Grows σ'.2
  spares : σ.2.Spares σ'.2
  /-- The workspaces of these organizations were seeded. -/
  tended : ∀ w ∈ σ.2.store.workspaces, w.organization ∈ names → Tended w σ σ'
  /-- The other workspaces were not touched. -/
  apart : ∀ w ∈ σ.2.store.workspaces, w.organization ∉ names → Apart w.organization w.id σ σ'
  /-- The queues of these organizations belong to stored workspaces. -/
  kept : ∀ o ∈ names, ∀ v q, σ'.1.queue? o v = some q →
    ∃ w ∈ σ.2.store.workspaces, w.id = v ∧ w.organization = o
  /-- The queues of other organizations are the same. -/
  others : ∀ o ∉ names, ∀ v, σ'.1.queue? o v = σ.1.queue? o v

theorem Swept.refl (hg : Good σ) : Swept [] σ σ where
  good := hg
  grows := .refl _
  spares := .refl _
  tended w _ h := by cases h
  apart w _ _ := .refl _ _ _
  kept o h := by cases h
  others _ _ _ := rfl

theorem Swept.trans {a : String} {names : List String} (h : Swept [a] σ σ₁) (h' : Swept names σ₁ σ')
    (ha : a ∉ names) (hg : Good σ) : Swept (a :: names) σ σ' where
  good := h'.good
  grows := h.grows.trans h'.grows
  spares := h.spares.trans h'.spares
  tended w hw ho := by
    by_cases hwa : w.organization = a
    · obtain ⟨w₁, hw₁, hid, ho₁⟩ := h.spares.workspace_to hg.sound h.grows hw
      have hap := h'.apart w₁ hw₁ (ho₁.trans hwa ▸ ha)
      rw [hid, ho₁] at hap
      exact (h.tended w hw (by simp [hwa])).before hap
    · have hap := h.apart w hw (by simpa using hwa)
      exact (h'.tended w (hap.mem_workspaces hg h.good hw)
        ((List.mem_cons.mp ho).resolve_left hwa)).after hap
  apart w hw ho := by
    rw [List.mem_cons, not_or] at ho
    have hap := h.apart w hw (by simpa using ho.1)
    exact hap.trans (h'.apart w (hap.mem_workspaces hg h.good hw) ho.2)
  kept o ho v q hq := by
    by_cases hoa : o = a
    · rw [h'.others o (hoa ▸ ha)] at hq
      exact h.kept o (by simp [hoa]) v q hq
    · obtain ⟨w₁, hw₁, hid, ho₁⟩ := h'.kept o ((List.mem_cons.mp ho).resolve_left hoa) v q hq
      obtain ⟨w, hw, hwid, hwo⟩ := h.spares.workspace_of hg.sound h.grows hw₁
      exact ⟨w, hw, hwid.symm.trans hid, hwo.symm.trans ho₁⟩
  others o ho v := by
    rw [List.mem_cons, not_or] at ho
    exact (h'.others o ho.2 v).trans (h.others o (by simpa using ho.1) v)

/-! ## An organization -/

/-- An organization whose queues belong to stored workspaces. -/
def prune (org : String) (σ : Roster × Ledger) : Roster × Ledger :=
  ((σ.1.ensure org).revise org (·.keep ((σ.2.store.workspacesOf org).map Workspace.id)), σ.2)

section Prune

variable {org : String}

theorem mem_workspacesOf : w ∈ σ.2.store.workspacesOf org ↔
    w ∈ σ.2.store.workspaces ∧ w.organization = org := by
  rw [Store.workspacesOf, List.mem_filter, beq_iff_eq]

theorem queue?_prune (σ : Roster × Ledger) (o v : String) : (prune org σ).1.queue? o v =
    if o = org ∧ v ∉ (σ.2.store.workspacesOf org).map Workspace.id then none
    else σ.1.queue? o v := by
  rw [prune, Roster.queue?_keep, Roster.queue?_ensure]

theorem queue?_of_prune {o v : String} {q : Queue} (h : (prune org σ).1.queue? o v = some q) :
    σ.1.queue? o v = some q :=
  Roster.queue?_ensure σ.1 org o v ▸ Roster.queue?_of_keep h

theorem apart_prune (hw : w ∈ σ.2.store.workspaces) : Apart w.organization w.id σ (prune org σ) := by
  refine ⟨(queue?_prune σ _ _).trans (if_neg fun h => h.2 ?_), .refl _ _, .refl _⟩
  exact List.mem_map_of_mem (mem_workspacesOf.mpr ⟨hw, h.1⟩)

theorem Good.prune (hg : Good σ) : Good (prune org σ) :=
  hg.trim fun _ _ _ h => queue?_of_prune (σ := σ) h

theorem seedOrganization_eq (org : Organization) (σ : Roster × Ledger) : seedOrganization org σ =
    (σ.2.store.workspacesOf org.name).forM seedWorkspace (Scheduler.prune org.name σ) := by
  have hlist : call (Service.listWorkspaces org.name) σ =
      (.ok (σ.2.store.workspacesOf org.name), σ) := rfl
  unfold seedOrganization
  rw [bind_ok hlist, bind_ok (revise_apply _ σ)]
  rfl

end Prune

theorem swept_of_seeded (hg : Good σ) {org : String} (hg' : Good σ') (hgr : σ.2.Grows σ'.2)
    (hsp : σ.2.Spares σ'.2)
    (ht : ∀ w ∈ σ.2.store.workspacesOf org, Tended w (prune org σ) σ')
    (ha : ∀ o v, v ∉ (σ.2.store.workspacesOf org).map Workspace.id → Apart o v (prune org σ) σ') :
    Swept [org] σ σ' := by
  have hlisted : ∀ v, v ∈ (σ.2.store.workspacesOf org).map Workspace.id →
      ∃ w ∈ σ.2.store.workspaces, w.id = v ∧ w.organization = org := by
    intro v hv
    obtain ⟨w, hw, hid⟩ := List.mem_map.mp hv
    obtain ⟨hw, ho⟩ := mem_workspacesOf.mp hw
    exact ⟨w, hw, hid, ho⟩
  refine ⟨hg', hgr, hsp, fun w hw ho => ?_, fun w hw ho => ?_, fun o ho v q hq => ?_,
    fun o ho v => ?_⟩
  · exact (ht w (mem_workspacesOf.mpr ⟨hw, by simpa using ho⟩)).after (apart_prune hw)
  · refine (apart_prune hw).trans (ha _ _ fun hv => ?_)
    obtain ⟨x, hx, hid, hxo⟩ := hlisted _ hv
    rw [hg.sound.ordered.workspace_eq hx hw hid] at hxo
    exact ho (by simp [hxo])
  · obtain rfl := List.mem_singleton.mp ho
    by_cases hv : v ∈ (σ.2.store.workspacesOf o).map Workspace.id
    · exact hlisted v hv
    · rw [(ha o v hv).queue, queue?_prune, if_pos ⟨rfl, hv⟩] at hq
      cases hq
  · by_cases hv : v ∈ (σ.2.store.workspacesOf org).map Workspace.id
    · obtain ⟨w, hw, rfl, hwo⟩ := hlisted v hv
      have hne : w.organization ≠ o := fun h => ho (by simp [← h, hwo])
      obtain ⟨w', hw', hid, hwo'⟩ := hsp.workspace_to hg.sound hgr hw
      rw [hg.queue?_eq_none hw hne, ← hid, hg'.queue?_eq_none hw' (hwo'.symm ▸ hne)]
    · rw [(ha o v hv).queue, queue?_prune, if_neg]
      exact fun h => ho (by simp [h.1])

/-- **An organization is seeded**, unless one of its workspaces is crowded. -/
theorem seedOrganization_swept (hg : Good σ) (org : Organization) :
    (∃ σ', seedOrganization org σ = (.ok (), σ') ∧ Swept [org.name] σ σ') ∨
      ∃ e σ', seedOrganization org σ = (.error e, σ') ∧ Good σ' ∧
        ∃ w ∈ σ.2.store.workspaces, w.organization = org.name ∧ σ.2.Crowded w.id := by
  have hn : ((σ.2.store.workspacesOf org.name).map Workspace.id).Nodup :=
    hg.sound.ordered.workspaces.sublist (List.filter_sublist.map _)
  rw [seedOrganization_eq]
  rcases seed_each hg.prune hn fun w hw => (mem_workspacesOf.mp hw).1 with
    ⟨σ', hok, hg', hgr, hsp, ht, ha⟩ | ⟨e, σ', he, hg', w, hw, hc⟩
  · exact .inl ⟨σ', hok, swept_of_seeded hg hg' hgr hsp ht ha⟩
  · obtain ⟨hw, ho⟩ := mem_workspacesOf.mp hw
    exact .inr ⟨e, σ', he, hg', w, hw, ho, hc⟩

/-! ## All organizations -/

theorem seedOrganizations_swept (hg : Good σ) {orgs : List Organization}
    (hn : (orgs.map Organization.name).Nodup) :
    (∃ σ', orgs.forM seedOrganization σ = (.ok (), σ') ∧
        Swept (orgs.map Organization.name) σ σ') ∨
      ∃ e σ', orgs.forM seedOrganization σ = (.error e, σ') ∧ Good σ' ∧
        ∃ w ∈ σ.2.store.workspaces, w.organization ∈ orgs.map Organization.name ∧ σ.2.Crowded w.id := by
  induction orgs generalizing σ with
  | nil => exact .inl ⟨σ, rfl, .refl hg⟩
  | cons org orgs ih =>
    obtain ⟨ho, hn⟩ := List.nodup_cons.mp hn
    rcases seedOrganization_swept hg org with ⟨σ₁, hok, hs⟩ | ⟨e, σ', he, hg', w, hw, hwo, hc⟩
    · have hforM : (org :: orgs).forM seedOrganization σ = orgs.forM seedOrganization σ₁ :=
        bind_ok hok
      rcases ih hs.good hn with ⟨σ', hok', hs'⟩ | ⟨e, σ', he, hg', w, hw, hwo, hc⟩
      · exact .inl ⟨σ', hforM.trans hok', hs.trans hs' ho hg⟩
      · refine .inr ⟨e, σ', hforM.trans he, hg', ?_⟩
        obtain ⟨x, hx, hid, hxo⟩ := hs.spares.workspace_of hg.sound hs.grows hw
        have hap := hs.apart x hx fun h => ho (List.mem_singleton.mp h ▸ hxo ▸ hwo)
        exact ⟨x, hx, List.mem_cons_of_mem _ (hxo ▸ hwo), hap.ledger.crowded.mp (hid ▸ hc)⟩
    · exact .inr ⟨e, σ', bind_error he, hg', w, hw, by simp [hwo], hc⟩

/-- All workspaces were seeded, and there are no other queues. -/
structure Reseeded (σ σ' : Roster × Ledger) : Prop where
  good : Good σ'
  grows : σ.2.Grows σ'.2
  spares : σ.2.Spares σ'.2
  /-- The stored workspaces were seeded. -/
  tended : ∀ w ∈ σ.2.store.workspaces, Tended w σ σ'
  /-- The queues belong to stored workspaces. -/
  kept : ∀ o v q, σ'.1.queue? o v = some q →
    ∃ w ∈ σ.2.store.workspaces, w.id = v ∧ w.organization = o

/-- **A run that is tracked after a seed** was tracked before, or has not ended. -/
theorem Reseeded.mem_tracked (h : Reseeded σ σ') {run : String} (hr : run ∈ σ'.1.tracked o v) :
    run ∈ σ.1.tracked o v ∨
      ∃ w ∈ σ.2.store.workspaces, w.id = v ∧ w.organization = o ∧ run ∈ σ.2.store.unfinishedOf v := by
  obtain ⟨q, hq⟩ : ∃ q, σ'.1.queue? o v = some q := by
    rcases hq : σ'.1.queue? o v with _ | q
    · rw [Roster.tracked, hq] at hr
      cases hr
    · exact ⟨q, rfl⟩
  obtain ⟨w, hw, rfl, rfl⟩ := h.kept o v q hq
  obtain ⟨q, l, σ₁, σ₂, ha₁, -, hs, ha₂⟩ := h.tended w hw
  rw [ha₂.tracked] at hr
  rw [← ha₁.tracked, ← ha₁.unfinishedOf]
  exact (hs.mem_tracked hr).imp_right fun hr => ⟨w, hw, rfl, rfl, hr⟩

/-- **What a seed comes to**: all workspaces are seeded, unless one of them is crowded. -/
theorem seed_reseeded (hg : Good σ) :
    (∃ σ', seed σ = (.ok (), σ') ∧ Reseeded σ σ') ∨
      ∃ e σ', seed σ = (.error e, σ') ∧ Good σ' ∧ ∃ w ∈ σ.2.store.workspaces, σ.2.Crowded w.id := by
  have hseat : ∀ w ∈ σ.2.store.workspaces,
      w.organization ∈ σ.2.store.organizations.map Organization.name := by
    intro w hw
    obtain ⟨org, ho, hwo⟩ := hg.sound.ordered.seat w hw
    exact hwo ▸ List.mem_map_of_mem ho
  generalize hnames : σ.2.store.organizations.map Organization.name = names at hseat
  have hlist : call Service.listOrganizations σ = (.ok σ.2.store.organizations, σ) := rfl
  have hq₀ := Roster.queue?_filter σ.1 names.contains
  have hg₀ := hg.trim fun _ _ _ h => Roster.queue?_of_filter names.contains h
  have hap₀ : ∀ w ∈ σ.2.store.workspaces, Apart w.organization w.id σ
      (σ.1.filter fun b => names.contains b.organization, σ.2) := fun w hw =>
    ⟨(hq₀ _ _).trans (if_pos (by simpa using hseat w hw)), .refl _ _, .refl _⟩
  have hseed : seed σ = σ.2.store.organizations.forM seedOrganization
      (σ.1.filter fun b => names.contains b.organization, σ.2) := by
    unfold seed
    rw [bind_ok hlist, hnames, bind_ok (revise_apply _ σ)]
  rcases seedOrganizations_swept hg₀ hg.sound.ordered.organizations with
    ⟨σ', hok, hs⟩ | ⟨e, σ', he, hg', w, hw, -, hc⟩
  · rw [hnames] at hs
    refine .inl ⟨σ', hseed.trans hok, hs.good, hs.grows, hs.spares, fun w hw => ?_, ?_⟩
    · exact (hs.tended w hw (hseat w hw)).after (hap₀ w hw)
    · intro o v q hq
      by_cases ho : o ∈ names
      · exact hs.kept o ho v q hq
      · rw [hs.others o ho] at hq
        change Roster.queue? _ _ _ = _ at hq
        rw [hq₀, if_neg (by simpa using ho)] at hq
        cases hq
  · exact .inr ⟨e, σ', hseed.trans he, hg', w, hw, hc⟩

end Provision.Scheduler
