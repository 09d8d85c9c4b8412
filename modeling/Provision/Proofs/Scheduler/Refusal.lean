import Provision.Proofs.Ledger.Move
import Provision.Proofs.Queue.Rest
import Provision.Proofs.Scheduler.Sweep

/-!
# Seeds that are refused

A seed checks a workspace when it comes to it. By the time it is refused, it has dealt with the workspaces
before the crowded one for good.

* `Store.tour`: the order in which a seed comes to the workspaces.
* `Scheduler.Halted`: how a seed is refused, whatever is stored and whatever the queues are.
* `Scheduler.AtRest`: there is nothing to do for a workspace.
* `Scheduler.Toured`: some workspaces were seeded one after the other, and no other one was touched.
* **`Scheduler.seed_refused`**: a refused seed has changed nothing that is stored if the workspaces before
  the crowded one are at rest. Where queues fit what is stored, it did to those what a seed does, and to
  the others nothing.
* `Scheduler.not_untouched_lateCrowd`: otherwise runs are admitted by a scheduler that then refuses to run.
-/

namespace Provision

/-- The workspaces in the order in which a seed comes to them. -/
def Store.tour (s : Store) : List Workspace :=
  s.organizations.flatMap fun org => s.workspacesOf org.name

namespace Ledger

instance (l : Ledger) (v : String) : Decidable (l.Crowded v) :=
  inferInstanceAs (Decidable (1 < (l.store.activeRunsOf v).length))

/-- The workspaces of a list that come before the first crowded one. -/
def uncrowded (l : Ledger) (ws : List Workspace) : List Workspace :=
  ws.takeWhile fun w => !decide (l.Crowded w.id)

variable {l : Ledger} {w : Workspace} {ws ws' : List Workspace}

theorem uncrowded_cons (h : ¬ l.Crowded w.id) : l.uncrowded (w :: ws) = w :: l.uncrowded ws := by
  simp [uncrowded, h]

theorem mem_uncrowded_append (h : w ∈ l.uncrowded ws) : w ∈ l.uncrowded (ws ++ ws') := by
  rw [uncrowded, List.takeWhile_append]
  split_ifs
  · exact List.mem_append_left _ ((List.takeWhile_prefix _).subset h)
  · exact h

theorem uncrowded_append (h : ∀ w ∈ ws, ¬ l.Crowded w.id) :
    l.uncrowded (ws ++ ws') = ws ++ l.uncrowded ws' :=
  List.takeWhile_append_of_pos (by simpa using h)

end Ledger

namespace Scheduler

open Effect
open Ledger (Crowded)

variable {σ σ₁ σ' : Roster × Ledger} {e : Error} {w : Workspace} {orgs : List Organization}
  {ws : List Workspace}

/-! ## How a seed is refused -/

/-- The queues of stored organizations, which a seed begins with. -/
def known (σ : Roster × Ledger) : Roster × Ledger :=
  (σ.1.filter fun b => (σ.2.store.organizations.map (·.name)).contains b.organization, σ.2)

theorem queue?_of_known {o v : String} {q : Queue} (h : (known σ).1.queue? o v = some q) :
    σ.1.queue? o v = some q :=
  Roster.queue?_of_filter (σ.2.store.organizations.map Organization.name).contains h

theorem seed_apply (σ : Roster × Ledger) :
    seed σ = σ.2.store.organizations.forM seedOrganization (known σ) := by
  have hlist : call Service.listOrganizations σ = (.ok σ.2.store.organizations, σ) := rfl
  unfold seed
  rw [bind_ok hlist, bind_ok (revise_apply _ σ)]
  rfl

/-- A seed has dealt with some organizations, and in the next one with some workspaces; then it came to a
crowded one, and was refused. -/
inductive Halted (e : Error) (σ σ' : Roster × Ledger) : Prop
  | intro (orgs : List Organization) (org : Organization) (orgs' : List Organization)
      (ws : List Workspace) (w : Workspace) (ws' : List Workspace) (σ₁ : Roster × Ledger) :
      σ.2.store.organizations = orgs ++ org :: orgs' →
      orgs.forM seedOrganization (known σ) = (.ok (), σ₁) →
      σ₁.2.store.workspacesOf org.name = ws ++ w :: ws' →
      ws.forM seedWorkspace (prune org.name σ₁) = (.ok (), σ') →
      σ'.2.Crowded w.id → e = violation w.id (σ'.2.store.activeRunsOf w.id) → Halted e σ σ'

/-- **The seed of a workspace is refused** only if it is crowded, and does nothing then. -/
theorem seedWorkspace_refused (h : seedWorkspace w σ = (.error e, σ')) :
    σ' = σ ∧ σ.2.Crowded w.id ∧ e = violation w.id (σ.2.store.activeRunsOf w.id) := by
  by_cases hc : σ.2.Crowded w.id
  · rw [seedWorkspace_crowded hc] at h
    cases h
    exact ⟨rfl, hc, rfl⟩
  · obtain ⟨l, hrel, -⟩ := releaseStaleLock_cases w (σ.2.store.activeRunsOf w.id).head? σ
    obtain ⟨q, σ₁, hseed, -⟩ := seedWorkspace_fed hc hrel
    rw [hseed] at h
    cases h

/-- **How a seed is refused.** -/
theorem seed_halted (h : seed σ = (.error e, σ')) : Halted e σ σ' := by
  rw [seed_apply] at h
  obtain ⟨orgs, org, orgs', σ₁, horgs, hok, horg⟩ := forM_error h
  rw [seedOrganization_eq] at horg
  obtain ⟨ws, w, ws', σ₂, hws, hok', hw⟩ := forM_error horg
  obtain ⟨rfl, hc, he⟩ := seedWorkspace_refused hw
  exact .intro orgs org orgs' ws w ws' σ₁ horgs hok hws hok' hc he

/-! ## Workspaces at rest -/

/-- There is nothing to do for a workspace, nor for what its queue tracks. -/
structure AtRest (w : Workspace) (σ : Roster × Ledger) : Prop where
  ledger : σ.2.AtRest w.id
  queue : ∀ q, σ.1.queue? w.organization w.id = some q → q.Idle w.id σ.2

/-- Nothing that is stored changed, and workspaces at rest are so still. -/
structure Untouched (σ σ' : Roster × Ledger) : Prop where
  ledger : σ'.2 = σ.2
  atRest : ∀ w, AtRest w σ → AtRest w σ'

theorem Untouched.refl (σ : Roster × Ledger) : Untouched σ σ :=
  ⟨rfl, fun _ h => h⟩

theorem Untouched.trans (h : Untouched σ σ₁) (h' : Untouched σ₁ σ') : Untouched σ σ' :=
  ⟨h'.ledger.trans h.ledger, fun w hw => h'.atRest w (h.atRest w hw)⟩

theorem untouched_of_removed {r : Roster}
    (hr : ∀ o v q, r.queue? o v = some q → σ.1.queue? o v = some q) : Untouched σ (r, σ.2) :=
  ⟨rfl, fun _ hw => ⟨hw.ledger, fun q hq => hw.queue q (hr _ _ q hq)⟩⟩

theorem releaseStaleLock_atRest (h : AtRest w σ) (hw : w ∈ σ.2.store.workspaces) (active : Option Run) :
    releaseStaleLock w active σ = (.ok (), σ) := by
  unfold releaseStaleLock
  rcases hl : w.lock with _ | run | name
  · rfl
  · obtain ⟨r, hr, hd⟩ := h.ledger.lock w hw rfl run hl
    have hg := Service.getRun_apply run σ.2
    rw [hr] at hg
    dsimp only
    split_ifs
    · rfl
    · rw [bind_ok (attempt_call_apply hg)]
      dsimp only
      rw [if_neg (by simp [hd])]
      rfl
  · rfl

/-- **The seed of a workspace at rest** changes nothing that is stored. -/
theorem seedWorkspace_atRest (h : AtRest w σ) (hw : w ∈ σ.2.store.workspaces)
    (hc : ¬ σ.2.Crowded w.id) :
    ∃ σ', seedWorkspace w σ = (.ok (), σ') ∧ Untouched σ σ' := by
  obtain ⟨q, σ', hseed, horigin, hled, hput⟩ := seedWorkspace_fed hc (releaseStaleLock_atRest h hw _)
  have hq : q.Idle w.id σ.2 := by
    rcases horigin with hq | ⟨-, rfl⟩
    · exact h.queue q hq
    · exact ⟨rfl, fun _ hr => by cases hr⟩
  obtain ⟨hl, hq'⟩ := Queue.feed_idle h.ledger hq w rfl
  rw [hl] at hled
  refine ⟨σ', hseed, hled, fun x hx => ⟨hled.symm ▸ hx.ledger, fun q' hq₁ => ?_⟩⟩
  rw [hled]
  rw [hput] at hq₁
  split_ifs at hq₁ with hxw
  · rw [hxw.2]
    exact Option.some.inj hq₁ ▸ hq'
  · exact hx.queue q' hq₁

/-- **Several workspaces are seeded**; those before the first crowded one are at rest. -/
theorem seed_each_atRest (hw : ∀ w ∈ ws, w ∈ σ.2.store.workspaces)
    (hr : ∀ w ∈ σ.2.uncrowded ws, AtRest w σ) :
    Untouched σ (ws.forM seedWorkspace σ).2 ∧
      ((ws.forM seedWorkspace σ).1 = .ok () → ∀ w ∈ ws, ¬ σ.2.Crowded w.id) := by
  induction ws generalizing σ with
  | nil => exact ⟨.refl σ, fun _ _ h => by cases h⟩
  | cons w ws ih =>
    by_cases hc : σ.2.Crowded w.id
    · have hforM : (w :: ws).forM seedWorkspace σ = _ := bind_error (seedWorkspace_crowded hc)
      rw [hforM]
      exact ⟨.refl σ, fun h => by cases h⟩
    · rw [Ledger.uncrowded_cons hc] at hr
      obtain ⟨σ₁, hok, hun⟩ := seedWorkspace_atRest (hr w List.mem_cons_self)
        (hw w List.mem_cons_self) hc
      have hforM : (w :: ws).forM seedWorkspace σ = ws.forM seedWorkspace σ₁ := bind_ok hok
      rw [hforM]
      have hl := hun.ledger
      obtain ⟨hun', hall⟩ := ih (fun x hx => hl ▸ hw x (List.mem_cons_of_mem w hx)) fun x hx =>
        hun.atRest x (hr x (List.mem_cons_of_mem w (hl ▸ hx)))
      refine ⟨hun.trans hun', fun h x hx => ?_⟩
      rcases List.mem_cons.mp hx with rfl | hx
      · exact hc
      · exact hl ▸ hall h x hx

theorem untouched_prune (org : String) (σ : Roster × Ledger) : Untouched σ (prune org σ) :=
  untouched_of_removed fun _ _ _ h => queue?_of_prune (σ := σ) h

theorem seedOrganization_atRest (org : Organization)
    (hr : ∀ w ∈ σ.2.uncrowded (σ.2.store.workspacesOf org.name), AtRest w σ) :
    Untouched σ (seedOrganization org σ).2 ∧
      ((seedOrganization org σ).1 = .ok () →
        ∀ w ∈ σ.2.store.workspacesOf org.name, ¬ σ.2.Crowded w.id) := by
  rw [seedOrganization_eq]
  have hp := untouched_prune org.name σ
  obtain ⟨hun, hall⟩ := seed_each_atRest (σ := prune org.name σ)
    (fun w hw => (mem_workspacesOf.mp hw).1) fun w hw => hp.atRest w (hr w hw)
  exact ⟨hp.trans hun, hall⟩

/-- **Organizations are seeded**; the workspaces before the first crowded one are at rest. -/
theorem seedOrganizations_atRest
    (hr : ∀ w ∈ σ.2.uncrowded (orgs.flatMap fun org => σ.2.store.workspacesOf org.name), AtRest w σ) :
    Untouched σ (orgs.forM seedOrganization σ).2 := by
  induction orgs generalizing σ with
  | nil => exact .refl σ
  | cons org orgs ih =>
    rw [List.flatMap_cons] at hr
    obtain ⟨hun, hall⟩ := seedOrganization_atRest org fun w hw =>
      hr w (Ledger.mem_uncrowded_append hw)
    obtain ⟨e, -, hb⟩ | ⟨_, hok, hb⟩ :=
      bind_cases (seedOrganization org) (fun _ => orgs.forM seedOrganization) σ
    · exact (congrArg (fun s => Untouched σ s.2) hb).mpr hun
    · rw [Ledger.uncrowded_append (hall (congrArg Prod.fst hok))] at hr
      have hl := hun.ledger
      refine (congrArg (fun s => Untouched σ s.2) hb).mpr (hun.trans (ih fun w hw => ?_))
      exact hun.atRest w (hr w (List.mem_append_right _ (hl ▸ hw)))

/-- A seed changes nothing that is stored if the workspaces before the first crowded one are at rest. -/
theorem seed_untouched (h : ∀ w ∈ σ.2.uncrowded σ.2.store.tour, AtRest w σ) :
    (seed σ).2.2 = σ.2 := by
  have hk : Untouched σ (known σ) := untouched_of_removed fun _ _ _ h => queue?_of_known h
  rw [seed_apply]
  exact (hk.trans (seedOrganizations_atRest (σ := known σ) fun w hw => hk.atRest w (h w hw))).ledger

/-! ## What was done before the refusal -/

theorem workspacesOf_of_apart {l l' : Ledger} {o : String} (hs : l.Sound) (hs' : l'.Sound)
    (hg : l.Grows l') (hsp : l.Spares l') (ha : ∀ w ∈ l.store.workspacesOf o, l.Apart w.id l') :
    l'.store.workspacesOf o = l.store.workspacesOf o := by
  unfold Store.workspacesOf
  rw [Keyed.filter_eq_filterMap hs.ordered.workspaces, Keyed.filter_eq_filterMap hs'.ordered.workspaces,
    hsp.workspaces]
  refine List.filterMap_congr fun id hid => ?_
  change (l'.store.workspace? id).filter _ = (l.store.workspace? id).filter _
  obtain ⟨w, hw, rfl⟩ := List.mem_map.mp hid
  have hl := hs.ordered.workspace?_eq_some_iff.mpr ⟨hw, rfl⟩
  by_cases ho : w.organization = o
  · have hwo : w ∈ l.store.workspacesOf o := List.mem_filter.mpr ⟨hw, by simpa using ho⟩
    rw [(ha w hwo).workspace]
  · obtain ⟨w', hw', hid', ho'⟩ := hsp.workspace_to hs hg hw
    have hl' := hs'.ordered.workspace?_eq_some_iff.mpr ⟨hw', hid'⟩
    rw [hl, hl', Option.filter_some_neg (by simpa using ho'.symm ▸ ho),
      Option.filter_some_neg (by simpa using ho)]

theorem Good.known (hg : Good σ) : Good (known σ) :=
  hg.trim fun _ _ _ h => queue?_of_known h

theorem apart_known (hg : Good σ) (hw : w ∈ σ.2.store.workspaces) :
    Apart w.organization w.id σ (known σ) := by
  obtain ⟨org, ho, hwo⟩ := hg.sound.ordered.seat w hw
  refine ⟨?_, .refl _ _, .refl _⟩
  refine (Roster.queue?_filter σ.1 (σ.2.store.organizations.map (·.name)).contains _ _).trans (if_pos ?_)
  simpa using ⟨org, ho, hwo⟩

theorem mem_workspaces_of_listed
    (hw : w ∈ orgs.flatMap fun org => σ.2.store.workspacesOf org.name) : w ∈ σ.2.store.workspaces := by
  obtain ⟨_, -, hw⟩ := List.mem_flatMap.mp hw
  exact (mem_workspacesOf.mp hw).1

theorem nodup_tour (hg : Good σ) : σ.2.store.tour.Nodup := by
  have ho := hg.sound.ordered
  refine List.nodup_flatMap.mpr ⟨fun org _ => (List.Nodup.of_map _ ho.workspaces).filter _, ?_⟩
  refine (List.pairwise_map.mp ho.organizations).imp fun hne w hw hw' => hne ?_
  exact (mem_workspacesOf.mp hw).2.symm.trans (mem_workspacesOf.mp hw').2

/-- The course of a seed that came to a crowded workspace: those before it were seeded, and it was not
touched, nor those after it. -/
structure Stopped (before : List Workspace) (w : Workspace) (after : List Workspace) (e : Error)
    (σ σ' : Roster × Ledger) : Prop where
  tour : σ.2.store.tour = before ++ w :: after
  tended : ∀ x ∈ before, Tended x σ σ'
  crowded : σ.2.Crowded w.id
  error : e = violation w.id (σ.2.store.activeRunsOf w.id)
  apart : ∀ x ∈ w :: after, Apart x.organization x.id σ σ'

/-- These workspaces were seeded, and no other one was touched. -/
structure Toured (ws : List Workspace) (σ σ' : Roster × Ledger) : Prop where
  good : Good σ'
  grows : σ.2.Grows σ'.2
  spares : σ.2.Spares σ'.2
  tended : ∀ w ∈ ws, Tended w σ σ'
  apart : ∀ w ∈ σ.2.store.workspaces, w ∉ ws → Apart w.organization w.id σ σ'

theorem toured_known (hg : Good σ) : Toured [] σ (known σ) where
  good := hg.known
  grows := .refl _
  spares := .refl _
  tended _ h := nomatch h
  apart _ hw _ := apart_known hg hw

theorem toured_prune (hg : Good σ) (org : String) : Toured [] σ (prune org σ) where
  good := hg.prune
  grows := .refl _
  spares := .refl _
  tended _ h := nomatch h
  apart _ hw _ := apart_prune hw

theorem toured_each (hg : Good σ) (hok : ws.forM seedWorkspace σ = (.ok (), σ'))
    (hn : (ws.map Workspace.id).Nodup) (hw : ∀ w ∈ ws, w ∈ σ.2.store.workspaces) :
    Toured ws σ σ' := by
  obtain ⟨τ, hok', hg', hgr, hsp, ht, ha⟩ | ⟨_, _, herr, -⟩ := seed_each hg hn hw
  swap
  · cases hok.symm.trans herr
  obtain rfl : σ' = τ := congrArg Prod.snd (hok.symm.trans hok')
  refine ⟨hg', hgr, hsp, ht, fun x hx hxw => ha _ _ fun hid => hxw ?_⟩
  obtain ⟨y, hy, hyx⟩ := List.mem_map.mp hid
  exact hg.sound.ordered.workspace_eq (hw y hy) hx hyx ▸ hy

theorem toured_organizations (hg : Good σ) (hok : orgs.forM seedOrganization σ = (.ok (), σ'))
    (hn : (orgs.map Organization.name).Nodup) :
    Toured (orgs.flatMap fun org => σ.2.store.workspacesOf org.name) σ σ' := by
  obtain ⟨τ, hok', hs⟩ | ⟨_, _, herr, -⟩ := seedOrganizations_swept hg hn
  swap
  · cases hok.symm.trans herr
  obtain rfl : σ' = τ := congrArg Prod.snd (hok.symm.trans hok')
  refine ⟨hs.good, hs.grows, hs.spares, fun x hx => ?_, fun x hx hxw => hs.apart x hx fun ho => hxw ?_⟩
  · obtain ⟨org, horg, hx⟩ := List.mem_flatMap.mp hx
    obtain ⟨hx, hxo⟩ := mem_workspacesOf.mp hx
    exact hs.tended x hx (hxo ▸ List.mem_map_of_mem horg)
  · obtain ⟨org, horg, hxo⟩ := List.mem_map.mp ho
    exact List.mem_flatMap.mpr ⟨org, horg, mem_workspacesOf.mpr ⟨hx, hxo.symm⟩⟩

theorem Toured.trans {ws' : List Workspace} (h : Toured ws σ σ₁) (h' : Toured ws' σ₁ σ') (hg : Good σ)
    (hw : ∀ w ∈ ws ++ ws', w ∈ σ.2.store.workspaces) (hd : ws.Disjoint ws') :
    Toured (ws ++ ws') σ σ' := by
  refine ⟨h'.good, h.grows.trans h'.grows, h.spares.trans h'.spares, fun x hx => ?_,
    fun x hx hxw => ?_⟩
  · rcases List.mem_append.mp hx with hx | hx
    · obtain ⟨y, hy, hid, ho⟩ := h.spares.workspace_to hg.sound h.grows
        (hw x (List.mem_append_left _ hx))
      refine (h.tended x hx).before (hid ▸ ho ▸ h'.apart y hy fun hyw => hd hx ?_)
      have hxy := hg.sound.ordered.workspace_eq (hw y (List.mem_append_right _ hyw))
        (hw x (List.mem_append_left _ hx)) hid
      exact hxy ▸ hyw
    · exact (h'.tended x hx).after
        (h.apart x (hw x (List.mem_append_right _ hx)) fun hx' => hd hx' hx)
  · rw [List.mem_append, not_or] at hxw
    have ha := h.apart x hx hxw.1
    exact ha.trans (h'.apart x (ha.mem_workspaces hg h.good hx) hxw.2)

theorem toured_before (hg : Good σ) (hok : orgs.forM seedOrganization (known σ) = (.ok (), σ'))
    (hn : (orgs.map Organization.name).Nodup) :
    Toured (orgs.flatMap fun org => σ.2.store.workspacesOf org.name) σ σ' :=
  (toured_known hg).trans (toured_organizations hg.known hok hn) hg
    (fun _ hx => mem_workspaces_of_listed hx) (List.disjoint_nil_left _)

theorem toured_within {org : String} {ws' : List Workspace} (hg : Good σ)
    (hws : σ.2.store.workspacesOf org = ws ++ ws')
    (hok : ws.forM seedWorkspace (prune org σ) = (.ok (), σ')) : Toured ws σ σ' := by
  have hids : ((ws ++ ws').map Workspace.id).Nodup :=
    hws ▸ hg.sound.ordered.workspaces.sublist (List.filter_sublist.map _)
  rw [List.map_append] at hids
  have hin : ∀ x ∈ ws, x ∈ σ.2.store.workspaces := by
    intro x hx
    have hx' : x ∈ σ.2.store.workspacesOf org := hws ▸ List.mem_append_left _ hx
    exact (mem_workspacesOf.mp hx').1
  exact (toured_prune hg org).trans (toured_each hg.prune hok hids.of_append_left hin) hg hin
    (List.disjoint_nil_left _)

/-- **What was done before the refusal**, where queues fit what is stored. -/
theorem Halted.stopped (h : Halted e σ σ') (hg : Good σ) :
    ∃ before w after, Stopped before w after e σ σ' := by
  obtain ⟨orgs, org, orgs', ws, w, ws', σ₁, horgs, hok, hws, hok', hc, he⟩ := h
  have hnames := hg.sound.ordered.organizations
  rw [horgs, List.map_append] at hnames
  have h₁ := toured_before hg hok hnames.of_append_left
  let before := orgs.flatMap fun org => σ.2.store.workspacesOf org.name
  let after := orgs'.flatMap fun org => σ.2.store.workspacesOf org.name
  have htour : σ.2.store.tour = before ++ (σ.2.store.workspacesOf org.name ++ after) := by
    rw [Store.tour, horgs, List.flatMap_append, List.flatMap_cons]
  have hnodup := nodup_tour hg
  -- The next organization is listed as it was, for the seed had not come to it.
  have hlisted : σ.2.store.workspacesOf org.name = ws ++ w :: ws' := by
    rw [← hws]
    refine (workspacesOf_of_apart hg.sound h₁.good.sound h₁.grows h₁.spares fun x hx => ?_).symm
    refine (h₁.apart x (mem_workspacesOf.mp hx).1 fun hx' => ?_).ledger
    exact List.disjoint_of_nodup_append (htour ▸ hnodup) hx' (List.mem_append_left _ hx)
  rw [hlisted, List.append_assoc, ← List.append_assoc] at htour
  have hstored : ∀ x ∈ σ.2.store.tour, x ∈ σ.2.store.workspaces := fun _ hx =>
    mem_workspaces_of_listed hx
  rw [htour] at hstored hnodup
  have h := h₁.trans (toured_within h₁.good hws hok') hg
    (fun x hx => hstored x (List.mem_append_left _ hx))
    (List.disjoint_of_nodup_append hnodup.of_append_left)
  have hrest : ∀ x ∈ w :: (ws' ++ after), Apart x.organization x.id σ σ' := fun x hx =>
    h.apart x (hstored x (List.mem_append_right _ hx)) fun hx' =>
      List.disjoint_of_nodup_append hnodup hx' hx
  have hw := (hrest w List.mem_cons_self).ledger
  refine ⟨before ++ ws, w, ws' ++ after, htour, h.tended, hw.crowded.mp hc, ?_, hrest⟩
  rw [he, Store.activeRunsOf, Store.activeRunsOf, Store.openRunsOf, Store.openRunsOf, hw.runs]

/-- Two workspaces: the first one has a run that waits to be admitted, the second one has two active
runs. -/
def lateCrowd : Roster × Ledger :=
  ([], ({} : Ledger).after [
    .createOrganization "acme",
    .createWorkspace { name := "prod", organization := "acme" },
    .createWorkspace { name := "test", organization := "acme" },
    .createRun { workspace := Identifier.fresh Workspace.stem 0 },
    .createRun { workspace := Identifier.fresh Workspace.stem 1 },
    .createRun { workspace := Identifier.fresh Workspace.stem 1 },
    .enqueuePlan (Identifier.fresh Run.stem 3),
    .enqueuePlan (Identifier.fresh Run.stem 4)])

/-- **A refused seed** has changed nothing that is stored if the workspaces before the first crowded one
are at rest, whatever else is stored and whatever the queues are. Where the queues fit what is stored, the
workspaces before the crowded one were seeded, and nothing else was done. -/
theorem seed_refused (h : seed σ = (.error e, σ')) :
    Halted e σ σ' ∧
      ((∀ w ∈ σ.2.uncrowded σ.2.store.tour, AtRest w σ) → σ'.2 = σ.2) ∧
      (Good σ → ∃ before w after, Stopped before w after e σ σ') := by
  have hh := seed_halted h
  refine ⟨hh, fun hr => ?_, hh.stopped⟩
  have hu := seed_untouched hr
  rwa [h] at hu

/-- A first workspace has an active run and one that waits behind it, which the scheduler knows; a second
one has two active runs. -/
def busyBeforeCrowd : Roster × Ledger :=
  let l := Ledger.firstRun.after [.createRun { workspace := Identifier.fresh Workspace.stem 0 }]
  let σ := l.announced.foldl (fun σ e => (dispatch e σ).2) (([], l) : Roster × Ledger)
  (σ.1, σ.2.after [
    .createWorkspace { name := "test", organization := "acme" },
    .createRun { workspace := Identifier.fresh Workspace.stem 3 },
    .createRun { workspace := Identifier.fresh Workspace.stem 3 },
    .enqueuePlan (Identifier.fresh Run.stem 4),
    .enqueuePlan (Identifier.fresh Run.stem 5)])

/-- A seed that is refused after a workspace at rest has done nothing. -/
theorem seed_refused_busyBeforeCrowd : ∃ e, (seed busyBeforeCrowd).1 = .error e ∧
    (∃ w ∈ busyBeforeCrowd.2.uncrowded busyBeforeCrowd.2.store.tour,
      ∃ r ∈ busyBeforeCrowd.2.store.runsOf w.id, r.status = .pending) ∧
    (seed busyBeforeCrowd).2.2 = busyBeforeCrowd.2 := by
  rcases hs : seed busyBeforeCrowd with ⟨e | u, σ'⟩
  swap
  · have hno : (seed busyBeforeCrowd).1.isOk = false := by decide +kernel
    rw [hs] at hno
    cases hno
  refine ⟨e, rfl, by decide +kernel, (seed_refused hs).2.1 fun w hw => ?_⟩
  have hlaunched : ∀ w ∈ busyBeforeCrowd.2.uncrowded busyBeforeCrowd.2.store.tour,
      ∀ r ∈ busyBeforeCrowd.2.store.runsOf w.id, r.speculative = true → r.status ≠ .pending := by
    decide +kernel
  have hstalled : ∀ w ∈ busyBeforeCrowd.2.uncrowded busyBeforeCrowd.2.store.tour,
      ∀ r ∈ busyBeforeCrowd.2.store.runsOf w.id, busyBeforeCrowd.2.Stalled w.id r.id := by
    decide +kernel
  have hlock : ∀ w ∈ busyBeforeCrowd.2.uncrowded busyBeforeCrowd.2.store.tour,
      ∀ x ∈ busyBeforeCrowd.2.store.workspaces, x.id = w.id →
        x.lock = some (.run (Identifier.fresh Run.stem 1)) := by
    decide +kernel
  have hholder : ∃ r ∈ busyBeforeCrowd.2.store.run? (Identifier.fresh Run.stem 1),
      r.isDone = false := by
    decide +kernel
  have hqueue : ∀ w ∈ busyBeforeCrowd.2.uncrowded busyBeforeCrowd.2.store.tour,
      ∀ q ∈ busyBeforeCrowd.1.queue? w.organization w.id, q.workspace.id = w.id ∧
        ∀ run ∈ q.tracked, busyBeforeCrowd.2.Stalled w.id run := by
    decide +kernel
  refine ⟨⟨hlaunched w hw, hstalled w hw, fun x hx hid run hl => ?_⟩, fun q hq => ?_⟩
  · obtain rfl := Holder.run.inj (Option.some.inj ((hlock w hw x hx hid).symm.trans hl))
    exact hholder
  · exact ⟨(hqueue w hw q hq).1, (hqueue w hw q hq).2⟩

/-- A run of the first workspace is admitted, and its lock is taken, by a seed that is refused for the
second one. -/
theorem not_untouched_lateCrowd :
    (∃ details, (seed lateCrowd).1 = .error (.consistencyViolation details)) ∧
      (∃ r ∈ lateCrowd.2.store.run? (Identifier.fresh Run.stem 2), r.status = .pending) ∧
      (∃ r ∈ (seed lateCrowd).2.2.store.run? (Identifier.fresh Run.stem 2), r.status = .planQueued) ∧
      (∃ w ∈ (seed lateCrowd).2.2.store.workspace? (Identifier.fresh Workspace.stem 0),
        w.lock = some (.run (Identifier.fresh Run.stem 2))) ∧
      (seed lateCrowd).2.2.announced ≠ lateCrowd.2.announced := by
  refine ⟨?_, by decide +kernel, by decide +kernel, by decide +kernel, by decide +kernel⟩
  exact ⟨_, rfl⟩

end Scheduler

end Provision
