import Provision.Fault
import Provision.Proofs.Scheduler.Calls
import Provision.Proofs.Scheduler.Refusal
import Provision.Proofs.Store.Rooted

/-!
# The check of a seed is exact

A seed checks each workspace when it comes to it, and by then it has admitted runs of others. What it did
there changes no run of this workspace, whatever is stored and whatever the queues are, as long as each of
them tracks runs of its own workspace only.

* `Ledger.Stirs`: only runs of certain workspaces changed, and nothing was created, removed or moved.
* `Scheduler.Own`: every queue tracks runs of its own workspace only.
* `Scheduler.Checked`: how the seed of some workspaces ends, by what was stored when it began
  (`Scheduler.Checked.bind` puts two of them together).
* **`Scheduler.seed_exact`**: a seed is refused if and only if some workspace was crowded when it began.
-/

namespace Provision

namespace Ledger

/-- No two workspaces and no two runs share an identifier. -/
structure Distinct (l : Ledger) : Prop where
  workspaces : (l.store.workspaces.map Workspace.id).Nodup
  runs : (l.store.runs.map Run.id).Nodup

/-- Beyond that, no two organizations share a name, and every workspace is in an organization. -/
structure Seated (l : Ledger) : Prop extends l.Distinct where
  organizations : (l.store.organizations.map Organization.name).Nodup
  seat : ∀ w ∈ l.store.workspaces, ∃ o ∈ l.store.organizations, o.name = w.organization

/-- Nothing was created, removed or moved, and only runs of certain workspaces changed. -/
structure Stirs (among : String → Prop) (l l' : Ledger) : Prop where
  organizations : l'.store.organizations = l.store.organizations
  /-- Every workspace is in the organization it was in. -/
  seats : (l'.store.workspaces.map fun w => (w.id, w.organization)) =
    l.store.workspaces.map fun w => (w.id, w.organization)
  /-- Every run is in the workspace it was in. -/
  homes : (l'.store.runs.map fun r => (r.id, r.workspace)) =
    l.store.runs.map fun r => (r.id, r.workspace)
  others : ∀ u, ¬ among u → l'.store.runsOf u = l.store.runsOf u

/-- The identifiers of the workspaces of an organization. -/
def seatedIn (l : Ledger) (organization : String) : List String :=
  (l.store.workspacesOf organization).map Workspace.id

variable {among : String → Prop} {l l' l'' : Ledger} {u v : String}

theorem seated_of_rooted (h : l.store.Rooted) : l.Seated :=
  ⟨⟨h.workspaces, h.runs⟩, h.organizations, h.seat⟩

theorem crowded_iff : l.Crowded v ↔
    2 ≤ (l.store.runs.filter fun r => r.workspace == v && r.isActive).length := by
  have hlist : l.store.activeRunsOf v = l.store.runs.filter fun r => r.workspace == v && r.isActive := by
    unfold Store.activeRunsOf Store.openRunsOf Store.runsOf
    rw [List.filter_filter, List.filter_filter]
    refine List.filter_congr fun r _ => ?_
    cases ha : r.isActive
    · simp
    · simp [((Run.isActive_iff r).mp ha).2.2]
  rw [Crowded, hlist]
  exact Iff.rfl

namespace Stirs

theorem refl (among : String → Prop) (l : Ledger) : l.Stirs among l :=
  ⟨rfl, rfl, rfl, fun _ _ => rfl⟩

theorem trans (h : l.Stirs among l') (h' : l'.Stirs among l'') : l.Stirs among l'' :=
  ⟨h'.organizations.trans h.organizations, h'.seats.trans h.seats, h'.homes.trans h.homes,
    fun u hu => (h'.others u hu).trans (h.others u hu)⟩

theorem mono {wider : String → Prop} (h : l.Stirs among l') (hw : ∀ u, among u → wider u) :
    l.Stirs wider l' :=
  ⟨h.organizations, h.seats, h.homes, fun u hu => h.others u fun ha => hu (hw u ha)⟩

theorem distinct (h : l.Stirs among l') (hd : l.Distinct) : l'.Distinct := by
  have hw := congrArg (List.map Prod.fst) h.seats
  have hr := congrArg (List.map Prod.fst) h.homes
  rw [List.map_map, List.map_map] at hw hr
  exact ⟨hw ▸ hd.workspaces, hr ▸ hd.runs⟩

theorem within {run : String} (h : l.Stirs among l') (hw : l.Within v run) : l'.Within v run := by
  intro r hr hid
  have hm : (r.id, r.workspace) ∈ l.store.runs.map fun r => (r.id, r.workspace) :=
    h.homes ▸ List.mem_map_of_mem hr
  obtain ⟨x, hx, he⟩ := List.mem_map.mp hm
  obtain ⟨hxid, hxw⟩ := Prod.mk.inj he
  exact hxw ▸ hw x hx (hxid.trans hid)

theorem seatedIn (h : l.Stirs among l') (o : String) : l'.seatedIn o = l.seatedIn o := by
  have hlist : ∀ l : Ledger, l.seatedIn o =
      ((l.store.workspaces.map fun w => (w.id, w.organization)).filter (·.2 == o)).map Prod.fst := by
    intro l
    rw [List.filter_map, List.map_map]
    rfl
  rw [hlist, hlist, h.seats]

theorem crowded (h : l.Stirs among l') (hu : ¬ among u) : l'.Crowded u ↔ l.Crowded u := by
  rw [Crowded, Crowded, Store.activeRunsOf, Store.activeRunsOf, Store.openRunsOf, Store.openRunsOf,
    h.others u hu]

end Stirs

/-! ## What a scheduler stirs -/

theorem stirs_putWorkspace (hd : l.Distinct) {w : Workspace} (hw : l.store.workspace? w.id = some w)
    (type : EventType) (w' : Workspace) (hid : w'.id = w.id) (ho : w'.organization = w.organization) :
    l.Stirs among (l.putWorkspace type w') where
  organizations := rfl
  seats := Keyed.map_replace fun x hx he => by
    rw [Keyed.eq_of_key hd.workspaces hx (Store.workspace?_mem hw) (he.trans hid), hid, ho]
  homes := rfl
  others _ _ := rfl

theorem stirs_putRun (hd : l.Distinct) {r r' : Run} (hr : l.store.run? r.id = some r)
    (hp : r.Precedes r') : l.Stirs (· = r.workspace) (l.putRun r') := by
  have hold : ∀ x ∈ l.store.runs, x.id = r'.id → x = r := fun x hx he =>
    Keyed.eq_of_key hd.runs hx (Store.run?_mem hr) (he.trans hp.id)
  refine ⟨rfl, rfl, Keyed.map_replace fun x hx he => ?_, fun u hu => ?_⟩
  · rw [hold x hx he, hp.id, hp.workspace]
  · have hf : (l.putRun r').store.runsOf u = Keyed.replace Run.id (l.store.runsOf u) r' :=
      Keyed.filter_replace fun x hx he => by rw [hold x hx he, hp.workspace]
    rw [hf]
    refine Keyed.replace_of_forall_ne fun x hx he => hu ?_
    obtain ⟨hm, hxu⟩ := Store.mem_runsOf.mp hx
    rw [← hxu, hold x hm he]

end Ledger

section Schedules

open Ledger (Move)

variable {admissible : String → Prop} {v : String} {l l' : Ledger}

/-- **A call of a scheduler that admits runs of one workspace only** stirs this workspace only. -/
theorem Request.Effect.stirs {c : Request} (he : c.Effect l l') (hd : l.Distinct)
    (hc : c.Schedules admissible) (ha : ∀ run, admissible run → l.Within v run) :
    l.Stirs (· = v) l' := by
  obtain ⟨hs, hc⟩ := hc
  cases he with
  | refused => exact .refl _ l
  | locked w w' holder hw h =>
    rw [Workspace.acquire_eq h]
    exact Ledger.stirs_putWorkspace hd hw _ { w with lock := some holder } rfl rfl
  | unlocked w w' requester force hw h =>
    rw [Workspace.release_eq h]
    exact Ledger.stirs_putWorkspace hd hw _ { w with lock := none } rfl rfl
  | currentRunSet w run hw =>
    exact Ledger.stirs_putWorkspace hd hw _ { w with currentRun := some run } rfl rfl
  | acted c action r r' hact hr ho =>
    have hrun : c = .enqueuePlan r.id := by
      cases c <;> cases hact <;> first | rfl | exact hs.elim
    obtain rfl := ha r.id (hc r.id hrun) r (Store.run?_mem hr) rfl
    exact Ledger.stirs_putRun hd hr ho.precedes
  | _ => exact hs.elim

theorem Ledger.stirs_of_moves (h : Relation.ReflTransGen (Move (Request.Schedules admissible)) l l')
    (hd : l.Distinct) (ha : ∀ run, admissible run → l.Within v run) : l.Stirs (· = v) l' := by
  induction h with
  | refl => exact .refl _ l
  | tail _ hm ih =>
    cases hm with
    | tick now => exact ih.trans ⟨rfl, rfl, rfl, fun _ _ => rfl⟩
    | request c hc _ =>
      exact ih.trans ((c.effect _).stirs (ih.distinct hd) hc fun run hr => ih.within (ha run hr))

end Schedules

namespace Scheduler

open Effect
open Ledger (Crowded Distinct seatedIn)

variable {σ σ₁ σ' : Roster × Ledger} {w : Workspace} {ids : List String}

/-- Every queue tracks runs of its own workspace only, as far as they are stored. -/
def Own (σ : Roster × Ledger) : Prop :=
  ∀ o v q, σ.1.queue? o v = some q → ∀ run ∈ q.tracked, σ.2.Within v run

theorem own_of_entries (h : ∀ b ∈ σ.1, ∀ e ∈ b.queues, ∀ run ∈ e.2.tracked, σ.2.Within e.1 run) :
    Own σ := by
  intro o v q hq run hrun
  obtain ⟨b, hb, hq⟩ := Option.bind_eq_some_iff.mp hq
  obtain ⟨⟨u, p⟩, he, rfl⟩ := Option.map_eq_some_iff.mp hq
  obtain rfl : u = v := by simpa using List.find?_some he
  exact h b (List.mem_of_find?_eq_some hb) (u, p) (List.mem_of_find?_eq_some he) run hrun

/-- How the seed of some workspaces ends, by what was stored when it began: it passed, and none of them was
crowded, or one of them was, and it was refused for that. -/
inductive Checked (ids : List String) (l : Ledger) : Except Error Unit × (Roster × Ledger) → Prop
  | passed (σ' : Roster × Ledger) : (∀ v ∈ ids, ¬ l.Crowded v) → Own σ' → l.Stirs (· ∈ ids) σ'.2 →
      Checked ids l (.ok (), σ')
  | refused (v : String) (active : List Run) (σ' : Roster × Ledger) : v ∈ ids → l.Crowded v →
      Checked ids l (.error (violation v active), σ')

/-- **One seed after another**: neither stirs what the other one checks. -/
theorem Checked.bind {ids' : List String} {x y : Step Unit} (hx : Checked ids σ.2 (x σ))
    (hy : ∀ σ₁, Own σ₁ → σ.2.Stirs (· ∈ ids) σ₁.2 → Checked ids' σ₁.2 (y σ₁))
    (hn : ids.Disjoint ids') : Checked (ids ++ ids') σ.2 ((x >>= fun _ => y) σ) := by
  generalize hout : x σ = out at hx
  cases hx with
  | refused v active σ' hv hc =>
    rw [bind_error hout]
    exact .refused v active σ' (List.mem_append_left _ hv) hc
  | passed σ₁ hnc ho hs =>
    rw [bind_ok hout]
    -- what was not stirred is as crowded as when the first one began
    have hsame : ∀ v ∈ ids', (σ₁.2.Crowded v ↔ σ.2.Crowded v) := fun v hv =>
      hs.crowded fun hv' => hn hv' hv
    have hy := hy σ₁ ho hs
    generalize y σ₁ = out' at hy
    cases hy with
    | refused v active σ' hv hc =>
      exact .refused v active σ' (List.mem_append_right _ hv) ((hsame v hv).mp hc)
    | passed σ' hnc' ho' hs' =>
      refine .passed σ' (fun v hv => ?_) ho' ?_
      · rcases List.mem_append.mp hv with hv | hv
        · exact hnc v hv
        · exact fun hc => hnc' v hv ((hsame v hv).mpr hc)
      · exact (hs.mono fun u hu => List.mem_append_left _ hu).trans
          (hs'.mono fun u hu => List.mem_append_right _ hu)

/-! ## A workspace -/

theorem releaseStaleLock_stirs (hd : σ.2.Distinct) (w : Workspace) (active : Option Run) :
    ∃ l, releaseStaleLock w active σ = (.ok (), (σ.1, l)) ∧ σ.2.Stirs (· = w.id) l := by
  obtain ⟨l, hrel, hl⟩ := releaseStaleLock_cases w active σ
  refine ⟨l, hrel, ?_⟩
  rcases hl with rfl | ⟨run, rfl⟩
  · exact .refl _ _
  · have hc : (Request.unlock w.id (.run run) false).Schedules fun _ => False := ⟨⟨rfl, rfl⟩, nofun⟩
    exact (Request.effect_unlock w.id (.run run) false).stirs hd hc nofun

/-- **A workspace is checked**, and its seed stirs no other one. -/
theorem seedWorkspace_checked (hd : σ.2.Distinct) (ho : Own σ) (w : Workspace) :
    Checked [w.id] σ.2 (seedWorkspace w σ) := by
  by_cases hc : σ.2.Crowded w.id
  · rw [seedWorkspace_crowded hc]
    exact .refused w.id _ σ (List.mem_singleton_self _) hc
  obtain ⟨l, hrel, hs⟩ := releaseStaleLock_stirs hd w (σ.2.store.activeRunsOf w.id).head?
  obtain ⟨q, σ', hseed, horigin, hled, hput⟩ := seedWorkspace_fed hc hrel
  -- the queue is fed runs of the workspace, and tracks no others
  have htracked : ∀ run ∈ q.tracked, σ.2.Within w.id run := by
    rcases horigin with hq | ⟨-, rfl⟩
    · exact ho _ _ q hq
    · exact fun _ h => nomatch h
  have hlisted : ∀ x ∈ σ.2.store.openRunsOf w.id, x.isDone = false ∧ σ.2.Within w.id x.id := by
    intro x hx
    obtain ⟨hx, hxw, hxd⟩ := Store.mem_openRunsOf.mp hx
    refine ⟨hxd, fun y hy hid => ?_⟩
    rw [Keyed.eq_of_key hd.runs hy hx hid]
    exact hxw
  obtain ⟨hmoves, hkept⟩ := (backend_laws (σ.2.Within w.id)).feed (b := World.services) (t := (q, l))
    w hlisted htracked
  have hall : σ.2.Stirs (· = w.id) σ'.2 := by
    rw [hled]
    exact hs.trans (Ledger.stirs_of_moves hmoves (hs.distinct hd) fun run h => hs.within h)
  rw [hseed]
  refine .passed σ' (fun v hv => List.mem_singleton.mp hv ▸ hc) (fun o v p hp run hm => hall.within ?_)
    (hall.mono fun u hu => List.mem_singleton.mpr hu)
  rw [hput] at hp
  split_ifs at hp with hov
  · obtain rfl := Option.some.inj hp
    exact hov.2 ▸ hkept run hm
  · exact ho o v p hp run hm

/-- **Several workspaces are checked** one after the other. -/
theorem seed_each_checked {ws : List Workspace} (hn : (ws.map Workspace.id).Nodup) (hd : σ.2.Distinct)
    (ho : Own σ) : Checked (ws.map Workspace.id) σ.2 (ws.forM seedWorkspace σ) := by
  induction ws generalizing σ with
  | nil => exact .passed σ nofun ho (.refl _ _)
  | cons w ws ih =>
    obtain ⟨hw, hn⟩ := List.nodup_cons.mp hn
    exact (seedWorkspace_checked hd ho w).bind (fun σ₁ ho₁ hs => ih hn (hs.distinct hd) ho₁)
      (List.singleton_disjoint.mpr hw)

/-! ## All workspaces -/

/-- The workspaces of some organizations. -/
def listed (l : Ledger) (orgs : List Organization) : List String :=
  orgs.flatMap fun org => l.seatedIn org.name

theorem listed_cons (l : Ledger) (org : Organization) (orgs : List Organization) :
    listed l (org :: orgs) = l.seatedIn org.name ++ listed l orgs := List.flatMap_cons

theorem Own.trim (ho : Own σ) {r : Roster}
    (hr : ∀ o v q, r.queue? o v = some q → σ.1.queue? o v = some q) : Own (r, σ.2) :=
  fun o v q hq => ho o v q (hr o v q hq)

theorem seedOrganization_checked (hd : σ.2.Distinct) (ho : Own σ) (org : Organization) :
    Checked (σ.2.seatedIn org.name) σ.2 (seedOrganization org σ) := by
  rw [seedOrganization_eq]
  have hown : Own (prune org.name σ) := ho.trim fun _ _ _ h => queue?_of_prune (σ := σ) h
  have hn : (σ.2.seatedIn org.name).Nodup := hd.workspaces.sublist (List.filter_sublist.map _)
  exact seed_each_checked (σ := prune org.name σ) hn hd hown

theorem seedOrganizations_checked {orgs : List Organization} (hn : (listed σ.2 orgs).Nodup)
    (hd : σ.2.Distinct) (ho : Own σ) :
    Checked (listed σ.2 orgs) σ.2 (orgs.forM seedOrganization σ) := by
  induction orgs generalizing σ with
  | nil => exact .passed σ nofun ho (.refl _ _)
  | cons org orgs ih =>
    rw [listed_cons] at hn ⊢
    obtain ⟨-, hn', hdis⟩ := List.nodup_append.mp hn
    refine (seedOrganization_checked hd ho org).bind (fun σ₁ ho₁ hs => ?_) fun v hv hv' => hdis v hv v hv' rfl
    have hsame : listed σ₁.2 orgs = listed σ.2 orgs :=
      List.flatMap_congr fun o _ => hs.seatedIn o.name
    rw [← hsame] at hn' ⊢
    exact ih hn' (hs.distinct hd) ho₁

theorem nodup_listed (hs : σ.2.Seated) : (listed σ.2 σ.2.store.organizations).Nodup := by
  refine List.nodup_flatMap.mpr ⟨fun org _ => hs.workspaces.sublist (List.filter_sublist.map _), ?_⟩
  refine (List.pairwise_map.mp hs.organizations).imp fun hne v hv hv' => hne ?_
  obtain ⟨w, hw, rfl⟩ := List.mem_map.mp hv
  obtain ⟨x, hx, hid⟩ := List.mem_map.mp hv'
  obtain ⟨hw, hwo⟩ := mem_workspacesOf.mp hw
  obtain ⟨hx, hxo⟩ := mem_workspacesOf.mp hx
  rw [← hwo, ← hxo, Keyed.eq_of_key hs.workspaces hw hx hid.symm]

theorem mem_listed (hs : σ.2.Seated) {v : String} :
    v ∈ listed σ.2 σ.2.store.organizations ↔ ∃ w ∈ σ.2.store.workspaces, w.id = v := by
  rw [listed, List.mem_flatMap]
  constructor
  · rintro ⟨org, -, hv⟩
    obtain ⟨w, hw, hid⟩ := List.mem_map.mp hv
    exact ⟨w, (mem_workspacesOf.mp hw).1, hid⟩
  · rintro ⟨w, hw, rfl⟩
    obtain ⟨org, horg, hwo⟩ := hs.seat w hw
    exact ⟨org, horg, List.mem_map_of_mem (mem_workspacesOf.mpr ⟨hw, hwo.symm⟩)⟩

theorem seed_checked (hs : σ.2.Seated) (ho : Own σ) :
    Checked (listed σ.2 σ.2.store.organizations) σ.2 (seed σ) := by
  rw [seed_apply]
  exact seedOrganizations_checked (σ := known σ) (nodup_listed hs) hs.toDistinct
    (ho.trim fun _ _ _ h => queue?_of_known h)

/-- **The check of a seed is exact.** Whatever is stored, if identities are unique and every workspace is in
an organization, and whatever the queues are, if each of them tracks runs of its own workspace only: a
seed fails for good if and only if, when it began, some stored workspace had two or more active runs.
It fails for no other reason. -/
theorem seed_exact (hs : σ.2.Seated) (ho : Own σ) :
    ((∃ e, (seed σ).1 = .error e ∧ (Fault.core e).isFatal = true) ↔
      ∃ w ∈ σ.2.store.workspaces,
        2 ≤ (σ.2.store.runs.filter fun r => r.workspace == w.id && r.isActive).length) ∧
      ∀ e, (seed σ).1 = .error e → (Fault.core e).isFatal = true := by
  have hc := seed_checked hs ho
  generalize seed σ = out at hc
  cases hc with
  | passed σ' hnc _ _ =>
    refine ⟨iff_of_false (fun ⟨_, he, _⟩ => nomatch he) ?_, nofun⟩
    rintro ⟨w, hw, hl⟩
    exact hnc w.id ((mem_listed hs).mpr ⟨w, hw, rfl⟩) (Ledger.crowded_iff.mpr hl)
  | refused v active σ' hv hcv =>
    obtain ⟨w, hw, rfl⟩ := (mem_listed hs).mp hv
    refine ⟨iff_of_true ⟨_, rfl, rfl⟩ ⟨w, hw, Ledger.crowded_iff.mp hcv⟩, fun e he => ?_⟩
    cases he
    rfl

/-- The stored state of `lateCrowd`, and a queue that missed the end of its current run: a run that waits
behind it is admitted before the seed comes to the crowded workspace. -/
def staleBeforeCrowd : Roster × Ledger :=
  ([⟨"acme", (lateCrowd.2.store.workspaces.take 1).map fun w =>
      (w.id, { workspace := w, current := some "run-gone", pending := [Identifier.fresh Run.stem 2] })⟩],
    lateCrowd.2)

/-- A stale queue is brought up to date and promotes a run, and the seed fails for good all the same. -/
theorem seed_exact_staleBeforeCrowd :
    (∃ e, (seed staleBeforeCrowd).1 = .error e ∧ (Fault.core e).isFatal = true) ∧
      (∃ r ∈ (seed staleBeforeCrowd).2.2.store.run? (Identifier.fresh Run.stem 2),
        r.status = .planQueued) := by
  have hseat : ∀ w ∈ staleBeforeCrowd.2.store.workspaces,
      ∃ o ∈ staleBeforeCrowd.2.store.organizations, o.name = w.organization := by
    decide +kernel
  have hown : ∀ b ∈ staleBeforeCrowd.1, ∀ e ∈ b.queues, ∀ run ∈ e.2.tracked,
      ∀ r ∈ staleBeforeCrowd.2.store.runs, r.id = run → r.workspace = e.1 := by
    decide +kernel
  have hhome : ∀ r ∈ staleBeforeCrowd.2.store.runs, ∃ w ∈ staleBeforeCrowd.2.store.workspaces,
      w.id = r.workspace ∧ w.organization = r.organization := by
    decide +kernel
  have hs : staleBeforeCrowd.2.store.Rooted :=
    ⟨by decide +kernel, by decide +kernel, by decide +kernel, by decide +kernel, hseat, hhome⟩
  exact ⟨(seed_exact (Ledger.seated_of_rooted hs) (own_of_entries hown)).1.mpr (by decide +kernel), by decide +kernel⟩

end Scheduler

end Provision
