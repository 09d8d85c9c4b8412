import Provision.Proofs.Ledger.Admission
import Provision.Proofs.Queue.Lockstep

/-!
# Ledgers that look alike

Two ledgers may differ in the readings of the clock, in what was announced and in things that do not
matter to somebody. A queue that only deals with what matters does the same over both of them.

* `Run.untimed`: a run without the times in its logs. The statuses remain, in their order.
* `Ledger.Agrees V K`: two ledgers tell the same of the workspaces in `V` and of the runs in `K`, but for
  times.
* `Backend.services_agree`: then they answer a queue alike.
-/

namespace Provision

open Effect (InStep Both)

/-! ## Runs without times -/

namespace Entered

variable {σ : Type}

/-- A log without its times. -/
def untimed (log : List (Entered σ)) : List (Entered σ) :=
  log.map fun e => { e with time := ⟨0, 0⟩ }

theorem statuses_untimed (log : List (Entered σ)) : statuses (untimed log) = statuses log := by
  rw [statuses, untimed, List.map_map]
  rfl

end Entered

open Entered (statuses statuses_untimed)

/-- The phase without the times in its log. -/
def Phase.untimed (p : Phase) : Phase :=
  { p with log := Entered.untimed p.log }

namespace Run

/-- The run without the times in its logs. -/
def untimed (r : Run) : Run :=
  { r with log := Entered.untimed r.log, plan := r.plan.untimed, apply := r.apply.untimed }

variable {r r' : Run}

theorem id_of_untimed (h : r'.untimed = r.untimed) : r'.id = r.id :=
  (congrArg Run.id h : r'.untimed.id = r.untimed.id)

theorem status_of_untimed (h : r'.untimed = r.untimed) : r'.status = r.status :=
  (congrArg Run.status h : r'.untimed.status = r.untimed.status)

theorem statuses_of_untimed (h : r'.untimed = r.untimed) : statuses r'.log = statuses r.log := by
  have hl : Entered.untimed r'.log = Entered.untimed r.log := congrArg Run.log h
  rw [← statuses_untimed r'.log, hl, statuses_untimed]

theorem untimed_queued (r : Run) (now : Instant) : (r.queued now).untimed = r.untimed.queued ⟨0, 0⟩ := by
  simp [untimed, queued, enter, enterPlan, Phase.enter, Phase.untimed, Entered.untimed]

theorem queued_of_untimed (h : r'.untimed = r.untimed) (now now' : Instant) :
    (r'.queued now').untimed = (r.queued now).untimed := by
  rw [untimed_queued, untimed_queued, h]

end Run

/-! ## Ledgers that agree -/

namespace Ledger

variable {V K : String → Prop} {l l' l'' : Ledger} {v run : String}

/-- Two ledgers tell the same of the workspaces in `V` and of the runs in `K`, but for times. -/
structure Agrees (V K : String → Prop) (l l' : Ledger) : Prop where
  workspace : ∀ v, V v → l'.store.workspace? v = l.store.workspace? v
  run : ∀ run, K run → (l'.store.run? run).map Run.untimed = (l.store.run? run).map Run.untimed

namespace Agrees

theorem refl (V K : String → Prop) (l : Ledger) : l.Agrees V K l :=
  ⟨fun _ _ => rfl, fun _ _ => rfl⟩

theorem symm (h : l.Agrees V K l') : l'.Agrees V K l :=
  ⟨fun v hv => (h.workspace v hv).symm, fun run hk => (h.run run hk).symm⟩

theorem trans (h : l.Agrees V K l') (h' : l'.Agrees V K l'') : l.Agrees V K l'' :=
  ⟨fun v hv => (h'.workspace v hv).trans (h.workspace v hv),
    fun run hk => (h'.run run hk).trans (h.run run hk)⟩

theorem mono {K' : String → Prop} (h : l.Agrees V K l') (hk : ∀ run, K' run → K run) :
    l.Agrees V K' l' :=
  ⟨h.workspace, fun run hr => h.run run (hk run hr)⟩

theorem tick (h : l.Agrees V K l') (now now' : Instant) :
    Agrees V K { l with clock := now } { l' with clock := now' } :=
  ⟨h.workspace, h.run⟩

theorem run_cases (h : l.Agrees V K l') (hk : K run) :
    (l.store.run? run = none ∧ l'.store.run? run = none) ∨ ∃ r r', l.store.run? run = some r ∧
      l'.store.run? run = some r' ∧ r'.untimed = r.untimed := by
  have hr := h.run run hk
  rcases hx : l.store.run? run with _ | r <;> rcases hx' : l'.store.run? run with _ | r' <;>
    rw [hx, hx'] at hr
  · exact .inl ⟨rfl, rfl⟩
  · cases hr
  · cases hr
  · exact .inr ⟨r, r', rfl, rfl, Option.some.inj hr⟩

theorem statuses (h : l.Agrees V K l') (hk : K run) :
    (l'.store.run? run).map (fun r => Entered.statuses r.log) =
      (l.store.run? run).map fun r => Entered.statuses r.log := by
  rcases h.run_cases hk with ⟨hr, hr'⟩ | ⟨r, r', hr, hr', hu⟩
  · rw [hr, hr']
  · rw [hr, hr', Option.map_some, Option.map_some, Run.statuses_of_untimed hu]

theorem putWorkspace {w w' : Workspace} (h : l.Agrees V K l') (hw : l.store.workspace? w.id = some w)
    (hw' : l'.store.workspace? w.id = some w) (hid : w'.id = w.id) (type : EventType) :
    (l.putWorkspace type w').Agrees V K (l'.putWorkspace type w') := by
  refine ⟨fun u hu => ?_, h.run⟩
  by_cases huw : u = w.id
  · rw [huw, workspace?_putWorkspace hw type w' hid, workspace?_putWorkspace hw' type w' hid]
  · have huw' : u ≠ w'.id := hid ▸ huw
    rw [workspace?_putWorkspace_of_ne huw', workspace?_putWorkspace_of_ne huw']
    exact h.workspace u hu

theorem putRun_queued {r r' : Run} (h : l.Agrees V K l') (hr : l.store.run? r.id = some r)
    (hr' : l'.store.run? r'.id = some r') (hu : r'.untimed = r.untimed) (now now' : Instant) :
    (l.putRun (r.queued now)).Agrees V K (l'.putRun (r'.queued now')) := by
  have hid := Run.id_of_untimed hu
  refine ⟨h.workspace, fun run hk => ?_⟩
  by_cases hrun : run = r.id
  · have hq := run?_putRun hr (r.queued now) rfl
    have hq' := run?_putRun hr' (r'.queued now') rfl
    rw [hrun, hq, ← hid, hq', Option.map_some, Option.map_some, Run.queued_of_untimed hu]
  · rw [run?_putRun_of_ne (r := r.queued now) hrun,
      run?_putRun_of_ne (r := r'.queued now') fun h => hrun (h.trans hid)]
    exact h.run run hk

theorem enqueuePlan_left (h : l.Agrees V K l') (hk : (l.store.run? run).isSome → ¬ K run) :
    Agrees V K (Service.enqueuePlan run l).2 l' := by
  rw [Service.enqueuePlan_apply]
  rcases hr : l.store.run? run with _ | r
  · exact h
  obtain rfl := Store.run?_id hr
  dsimp only
  split_ifs
  · refine ⟨h.workspace, fun x hx => ?_⟩
    have hq := run?_putRun_of_ne (r := r.queued l.clock) (fun hxr => hk (by rw [hr]; rfl) (hxr ▸ hx)) l
    exact (h.run x hx).trans (congrArg (Option.map Run.untimed) hq.symm)
  · exact h

end Agrees

end Ledger

/-! ## Services over ledgers that agree -/

section Services

variable {V K : String → Prop} {l l' : Ledger} {v run : String} (h : l.Agrees V K l')

include h

theorem Service.reviseWorkspace_agree (hv : V v) (type : EventType)
    {change : Workspace → Except Error Workspace} (hid : ∀ w w', change w = .ok w' → w'.id = w.id) :
    InStep (Ledger.Agrees V K) (fun _ => False) (fun w w' : Workspace => w' = w ∧ w.id = v)
      (reviseWorkspace type v change l) (reviseWorkspace type v change l') := by
  rw [reviseWorkspace_apply type v hid, reviseWorkspace_apply type v hid, h.workspace v hv]
  rcases hw : l.store.workspace? v with _ | w
  · exact .both (.error _) h
  obtain rfl := Store.workspace?_id hw
  dsimp only
  rcases hc : change w with e | w'
  · exact .both (.error e) h
  · exact .ok ⟨rfl, hid w w' hc⟩ (h.putWorkspace hw ((h.workspace _ hv).trans hw) (hid w w' hc) type)

theorem Service.unlockWorkspace_agree (hv : V v) (requester : Holder) (force : Bool) :
    InStep (Ledger.Agrees V K) (fun _ => False)
      (fun w w' : Option Workspace => w' = w ∧ ∀ x ∈ w, x.id = v)
      (unlockWorkspace v requester force l) (unlockWorkspace v requester force l') := by
  unfold unlockWorkspace
  refine InStep.bind (P := fun s s' : Store => s'.workspace? v = s.workspace? v)
    (.ok (h.workspace v hv) h) fun s s' l l' _ hs h => ?_
  refine InStep.ite (by rw [hs]) (fun _ => .ok ⟨rfl, fun _ hx => by cases hx⟩ h) fun _ => ?_
  refine InStep.bind (Service.reviseWorkspace_agree h hv .workspaceUnlocked fun _ _ hr =>
    Workspace.release_eq hr ▸ rfl) fun w w' _ _ _ hw h => ?_
  obtain ⟨rfl, hid⟩ := hw
  exact .ok ⟨rfl, fun x hx => Option.some.inj hx ▸ hid⟩ h

theorem Service.getRun_agree (hk : K run) :
    InStep (Ledger.Agrees V K) (fun _ => False) (fun x y : Run => y.status = x.status)
      (getRun run l) (getRun run l') := by
  rw [getRun_apply, getRun_apply]
  rcases h.run_cases hk with ⟨hr, hr'⟩ | ⟨r, r', hr, hr', hu⟩
  · rw [hr, hr']
    exact .both (.error _) h
  · rw [hr, hr']
    exact .ok (Run.status_of_untimed hu) h

theorem Service.enqueuePlan_agree (hk : K run) :
    InStep (Ledger.Agrees V K) (fun _ => False) (fun _ _ => True)
      (enqueuePlan run l) (enqueuePlan run l') := by
  rw [enqueuePlan_apply, enqueuePlan_apply]
  rcases h.run_cases hk with ⟨hr, hr'⟩ | ⟨r, r', hr, hr', hu⟩
  · rw [hr, hr']
    exact .both (.error _) h
  have hst := Run.status_of_untimed hu
  have hid := Run.id_of_untimed hu
  rw [hr, hr']
  obtain rfl := Store.run?_id hr
  dsimp only
  rw [hst]
  split_ifs
  · exact .ok trivial (h.putRun_queued hr (hid ▸ hr') hu l.clock l'.clock)
  · have hf : r'.refusal "enqueue_plan" = r.refusal "enqueue_plan" := by
      rw [Run.refusal, Run.refusal, hid, hst]
    rw [hf]
    exact .both (.error _) h

end Services

open Service in
/-- **Ledgers that agree answer a queue alike.** -/
theorem Backend.services_agree {V K : String → Prop} {v : String} (hv : V v) :
    Backend.services.Lockstep Backend.services (Ledger.Agrees V K) (fun _ _ => False) v K K where
  getRun hk h := getRun_agree h hk
  lockWorkspace _ h := reviseWorkspace_agree h hv _ fun _ _ ha => Workspace.acquire_eq ha ▸ rfl
  enqueuePlan hk _ _ _ h := (enqueuePlan_agree h hk).imp (fun _ hd => hd) fun _ _ _ _ => trivial
  launch hk h := enqueuePlan_agree h hk
  unlockWorkspace _ h := unlockWorkspace_agree h hv _ _
  setCurrentRun _ h := reviseWorkspace_agree h hv _ fun _ _ hc => by cases hc; rfl

end Provision
