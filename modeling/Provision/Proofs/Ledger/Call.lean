import Provision.Proofs.Ledger.Request
import Provision.Proofs.Run.Course

/-!
# What the calls return

The outcome of a call of the services, and the ledger after it, in terms of what is stored.

* `Service.reviseWorkspace_apply`, `Service.transition_apply`: the calls on workspaces and on runs.
* `Request.effect`: the effects listed for a request are all there are.
-/

namespace Provision

namespace Store

variable {s : Store}

theorem workspace?_id {id : String} {w : Workspace} (h : s.workspace? id = some w) : w.id = id := by
  simpa using List.find?_some h

theorem workspace?_mem {id : String} {w : Workspace} (h : s.workspace? id = some w) :
    w ∈ s.workspaces := List.mem_of_find?_eq_some h

theorem run?_id {id : String} {r : Run} (h : s.run? id = some r) : r.id = id := by
  simpa using List.find?_some h

theorem run?_mem {id : String} {r : Run} (h : s.run? id = some r) : r ∈ s.runs :=
  List.mem_of_find?_eq_some h

theorem putChunk_eq {chunk : Chunk} {stored : StoredChunk} {s' : Store}
    (h : s.putChunk chunk = .ok (stored, s')) : s'.organizations = s.organizations ∧
      s'.workspaces = s.workspaces ∧ s'.runs = s.runs := by
  unfold putChunk at h
  split_ifs at h
  cases h
  exact ⟨rfl, rfl, rfl⟩

end Store

namespace Workspace

variable {w w' : Workspace}

theorem acquire_eq {holder : Holder} (h : w.acquire holder = .ok w') :
    w' = { w with lock := some holder } := by
  unfold acquire at h
  split at h
  · cases h
    rfl
  · next current hl =>
    split_ifs at h with hc
    · cases h
      rw [← hc, ← hl]
    · cases h
      rfl

theorem release_eq {requester : Holder} {force : Bool} (h : w.release requester force = .ok w') :
    w' = { w with lock := none } := by
  unfold release at h
  split at h
  · cases h
  · split_ifs at h
    cases h
    rfl

theorem acquire_run (w : Workspace) (run : String) :
    ((w.lock = none ∨ w.lock = some (.run run)) ∧
        w.acquire (.run run) = .ok { w with lock := some (.run run) }) ∨
      ∃ holder, w.lock = some holder ∧ holder ≠ .run run ∧
        w.acquire (.run run) = .error (.workspaceAlreadyLocked w.id holder.describe) := by
  rcases hl : w.lock with _ | holder
  · exact .inl ⟨.inl rfl, by simp [acquire, hl]⟩
  · by_cases hr : holder = .run run
    · subst hr
      refine .inl ⟨.inr rfl, ?_⟩
      rw [acquire, hl]
      simp [← hl]
    · exact .inr ⟨holder, rfl, hr, by simp [acquire, hl, hr, Holder.isUser]⟩

theorem release_run (w : Workspace) (run : String) :
    (w.lock = some (.run run) ∧ w.release (.run run) false = .ok { w with lock := none }) ∨
      (w.lock ≠ some (.run run) ∧
        ∃ e : Error, e.isPrecondition = true ∧ w.release (.run run) false = .error e) := by
  rcases hl : w.lock with _ | holder
  · exact .inr ⟨by simp, _, rfl, by simp [release, hl]; rfl⟩
  · by_cases hr : holder = .run run
    · exact .inl ⟨by rw [hr], by simp [release, hl, hr]⟩
    · exact .inr ⟨by simpa using hr, .workspaceLockedByDifferentParty w.id holder.describe, rfl,
        by simp [release, hl, hr]⟩

end Workspace

namespace Service

open Effect

variable {l : Ledger}

theorem store_apply (l : Ledger) : store l = (.ok l.store, l) := rfl

theorem now_apply (l : Ledger) : now l = (.ok l.clock, l) := rfl

theorem number_apply (l : Ledger) : number l = (.ok l.supply, l.spend) := rfl

theorem commit_apply {α : Type} (change : Store → Except Error (α × Store)) (l : Ledger) :
    commit change l = match change l.store with
      | .ok (a, s) => (.ok a, { l with store := s })
      | .error e => (.error e, l) := by
  unfold commit
  rw [bind_ok (store_apply l)]
  rcases change l.store with e | ⟨a, s⟩ <;> rfl

theorem commit_bind {α β : Type} (change : Store → Except Error (α × Store)) (f : α → Service β)
    (l : Ledger) :
    (commit change >>= f) l = match change l.store with
      | .ok (a, s) => f a { l with store := s }
      | .error e => (.error e, l) := by
  have hc := commit_apply change l
  rcases h : change l.store with e | ⟨a, s⟩
  · rw [h] at hc
    rw [bind_error hc]
  · rw [h] at hc
    rw [bind_ok hc]

theorem commit_unit_bind {β : Type} (change : Store → Except Error Store) (f : Unit → Service β)
    (l : Ledger) :
    (commit_ change >>= f) l = match change l.store with
      | .ok s => f () { l with store := s }
      | .error e => (.error e, l) := by
  unfold commit_
  rw [commit_bind]
  rcases change l.store with e | s <;> rfl

/-! ## Calls on workspaces -/

/-- **A call that changes a workspace.** -/
theorem reviseWorkspace_apply (type : EventType) (id : String)
    {change : Workspace → Except Error Workspace}
    (hid : ∀ w w', change w = .ok w' → w'.id = w.id) (l : Ledger) :
    reviseWorkspace type id change l = match l.store.workspace? id with
      | none => (.error (.workspaceNotFound id), l)
      | some w => match change w with
        | .error e => (.error e, l)
        | .ok w' => (.ok w', l.putWorkspace type w') := by
  unfold reviseWorkspace
  rw [commit_bind, Store.updateWorkspace]
  rcases hw : l.store.workspace? id with _ | w
  · rfl
  · rcases h : change w with e | w'
    · simp [h]
    · have hi : w'.id = id := (hid w w' h).trans (Store.workspace?_id hw)
      subst hi
      simp only [h]
      rfl

theorem lockWorkspace_apply (id : String) (holder : Holder) (l : Ledger) :
    lockWorkspace id holder l = match l.store.workspace? id with
      | none => (.error (.workspaceNotFound id), l)
      | some w => match w.acquire holder with
        | .error e => (.error e, l)
        | .ok w' =>
          (.ok w', l.putWorkspace .workspaceLocked w') :=
  reviseWorkspace_apply _ _ (fun _ _ h => Workspace.acquire_eq h ▸ rfl) l

theorem unlockWorkspace_apply (id : String) (requester : Holder) (force : Bool) (l : Ledger) :
    unlockWorkspace id requester force l = match l.store.workspace? id with
      | none => (.ok none, l)
      | some w => match w.release requester force with
        | .error e => (.error e, l)
        | .ok w' =>
          (.ok (some w'),
            l.putWorkspace .workspaceUnlocked w') := by
  have hr := reviseWorkspace_apply .workspaceUnlocked id
    (fun _ _ (h : Workspace.release _ requester force = _) => Workspace.release_eq h ▸ rfl) l
  unfold unlockWorkspace
  rw [bind_ok (store_apply l)]
  rcases hw : l.store.workspace? id with _ | w
  · rfl
  · rw [hw] at hr
    rcases h : w.release requester force with e | w'
    · simp only [h] at hr ⊢
      rw [if_neg (by simp)]
      exact bind_error hr
    · simp only [h] at hr ⊢
      rw [if_neg (by simp)]
      exact bind_ok hr

theorem setCurrentRun_apply (id run : String) (l : Ledger) :
    setCurrentRun id run l = match l.store.workspace? id with
      | none => (.error (.workspaceNotFound id), l)
      | some w =>
        (.ok { w with currentRun := some run },
          l.putWorkspace .workspaceUpdated { w with currentRun := some run }) :=
  reviseWorkspace_apply _ _ (fun _ _ h => by cases h; rfl) l

/-! ## Calls on runs -/

/-- **A call that changes a run.** -/
theorem transition_apply (id : String) {change : Run → Except Error Run}
    (hid : ∀ r r', change r = .ok r' → r'.id = r.id) (l : Ledger) :
    transition id change l = match l.store.run? id with
      | none => (.error (.runNotFound id), l)
      | some r => match change r with
        | .error e => (.error e, l)
        | .ok r' => (.ok r', l.putRun r') := by
  unfold transition
  rw [commit_bind, Store.updateRun]
  rcases hr : l.store.run? id with _ | r
  · rfl
  · rcases h : change r with e | r'
    · simp [h]
    · have hi : r'.id = id := (hid r r' h).trans (Store.run?_id hr)
      subst hi
      simp only [h]
      rfl

theorem require_apply {α : Type} (value : Option α) (e : Error) (l : Ledger) :
    require value e l = match value with
      | some a => (.ok a, l)
      | none => (.error e, l) := by
  cases value <;> rfl

theorem getRun_apply (id : String) (l : Ledger) :
    getRun id l = match l.store.run? id with
      | some r => (.ok r, l)
      | none => (.error (.runNotFound id), l) := by
  unfold getRun
  rw [bind_ok (store_apply l), require_apply]
  cases l.store.run? id <;> rfl

theorem getWorkspace_apply (id : String) (l : Ledger) :
    getWorkspace id l = match l.store.workspace? id with
      | some w => (.ok w, l)
      | none => (.error (.workspaceNotFound id), l) := by
  unfold getWorkspace
  rw [bind_ok (store_apply l), require_apply]
  cases l.store.workspace? id <;> rfl

theorem getRun_snd (id : String) (l : Ledger) : (getRun id l).2 = l := by
  rw [getRun_apply]
  cases l.store.run? id <;> rfl

theorem getWorkspace_snd (id : String) (l : Ledger) : (getWorkspace id l).2 = l := by
  rw [getWorkspace_apply]
  cases l.store.workspace? id <;> rfl

theorem run?_of_getRun {id : String} {l : Ledger} {r : Run} (h : (getRun id l).1 = .ok r) :
    l.store.run? id = some r := by
  rw [getRun_apply] at h
  rcases hr : l.store.run? id with _ | x
  · rw [hr] at h
    cases h
  · rw [hr] at h
    rw [Except.ok.inj h]

theorem workspace?_of_getWorkspace {id : String} {l : Ledger} {w : Workspace}
    (h : (getWorkspace id l).1 = .ok w) : l.store.workspace? id = some w := by
  rw [getWorkspace_apply] at h
  rcases hw : l.store.workspace? id with _ | x
  · rw [hw] at h
    cases h
  · rw [hw] at h
    rw [Except.ok.inj h]

theorem enqueuePlan_apply (id : String) (l : Ledger) :
    enqueuePlan id l = match l.store.run? id with
      | none => (.error (.runNotFound id), l)
      | some r =>
        if r.status = .pending then
          let r' := (r.enter .planQueued l.clock).enterPlan .queued l.clock
          (.ok r', l.putRun r')
        else (.error (r.refusal "enqueue_plan"), l) := by
  unfold enqueuePlan
  rw [bind_ok (now_apply l), transition_apply id fun _ _ h =>
    (Run.outcome_of_enqueuePlan h : Run.Outcome _ l.clock l.clock _ _).precedes.id]
  rcases l.store.run? id with _ | r
  · rfl
  · by_cases hs : r.status = .pending
    · simp [Run.enqueuePlan, hs]
    · simp [Run.enqueuePlan, hs]

end Service

/-! ## The list of effects -/

namespace Request

variable {l : Ledger}

theorem effect_of_value {α β : Type} {c : Request} {x : Service α} (f : α → β)
    (h : c.Effect l (x l).2) : c.Effect l ((do return f (← x) : Service β) l).2 := by
  obtain ⟨e, -, hx⟩ | ⟨a, -, hx⟩ :=
    Provision.Effect.bind_cases x (fun a => (pure (f a) : Service β)) l
  · rw [hx]
    exact h
  · rw [hx]
    exact h

theorem effect_of_transition {c : Request} {id : String} {action : Action}
    {change : Run → Except Error Run} (hc : c.action? = some (id, action))
    (ho : ∀ r r', change r = .ok r' → r.Outcome l.clock l.clock action r') :
    c.Effect l (Service.transition id change l).2 := by
  rw [Service.transition_apply id fun r r' h => (ho r r' h).precedes.id]
  rcases hr : l.store.run? id with _ | r
  · exact .refused c
  · rcases h : change r with e | r'
    · simpa [h] using Effect.refused c
    · obtain rfl := Store.run?_id hr
      simpa [h] using Effect.acted c action r r' hc hr (ho r r' h)

theorem effect_of_revise {c : Request} {type : EventType} {id : String}
    {change : Workspace → Except Error Workspace}
    (hid : ∀ w w', change w = .ok w' → w'.id = w.id)
    (he : ∀ w w', l.store.workspace? id = some w → change w = .ok w' →
      c.Effect l (l.putWorkspace type w')) :
    c.Effect l (Service.reviseWorkspace type id change l).2 := by
  rw [Service.reviseWorkspace_apply type id hid]
  rcases hw : l.store.workspace? id with _ | w
  · exact .refused c
  · rcases h : change w with e | w'
    · simpa [h] using Effect.refused c
    · simpa [h] using he w w' hw h

theorem effect_createOrganization (name : String) :
    (createOrganization name).Effect l (Service.createOrganization name l).2 := by
  unfold Service.createOrganization
  rw [Provision.Effect.bind_ok (Service.now_apply l)]
  unfold Organization.new
  by_cases hn : Organization.isName name = true
  · rw [if_pos hn]
    dsimp only
    rw [pure_bind, Service.commit_unit_bind, Store.createOrganization]
    split_ifs with h
    · exact .refused _
    · exact .organizationCreated ⟨name, l.clock⟩ (by simpa using h)
  · rw [if_neg hn]
    exact .refused _

theorem effect_deleteOrganization (name : String) :
    (deleteOrganization name).Effect l (Service.deleteOrganization name l).2 := by
  unfold Service.deleteOrganization
  rw [Service.commit_unit_bind, Store.deleteOrganization]
  split_ifs with h
  · exact .organizationDeleted name
  · exact .refused _

theorem effect_deleteWorkspace (id : String) :
    (deleteWorkspace id).Effect l (Service.deleteWorkspace id l).2 := by
  unfold Service.deleteWorkspace
  rw [Service.commit_unit_bind, Store.deleteWorkspace]
  split_ifs with h
  · exact .workspaceDeleted id (by simpa using h)
  · exact .refused _

theorem effect_createWorkspace (opts : NewWorkspace) :
    (createWorkspace opts).Effect l (Service.createWorkspace opts l).2 := by
  unfold Service.createWorkspace
  split_ifs with hn
  · exact .refused _
  change Effect l _ ((Service.store >>= _) l).2
  rw [Provision.Effect.bind_ok (Service.store_apply l)]
  rcases ho : l.store.organization? opts.organization with _ | o
  · exact .refused _
  rw [if_neg (by simp)]
  change Effect l _ ((Service.number >>= _) l).2
  rw [Provision.Effect.bind_ok (Service.number_apply l),
    Provision.Effect.bind_ok (Service.now_apply l.spend)]
  rw [Service.commit_unit_bind, Store.createWorkspace]
  split_ifs with hm hw
  · exact .refusedLate opts
  · exact .refusedLate opts
  · exact .workspaceCreated opts o (List.mem_of_find?_eq_some ho) (by simpa using List.find?_some ho)

theorem effect_createRun (request : RunRequest) :
    (createRun request).Effect l (Service.createRun request l).2 := by
  unfold Service.createRun
  have hg := Service.getWorkspace_apply request.workspace l
  rcases hw : l.store.workspace? request.workspace with _ | w
  · rw [hw] at hg
    rw [Provision.Effect.bind_error hg]
    exact .refused _
  · rw [hw] at hg
    rw [Provision.Effect.bind_ok hg, Provision.Effect.bind_ok (Service.number_apply l),
      Provision.Effect.bind_ok (Service.now_apply l.spend)]
    rw [Service.commit_unit_bind, Store.createRun]
    split_ifs with hm hr
    · exact .refusedRun request
    · exact .refusedRun request
    · exact .runCreated request w _ hw rfl

theorem effect_deleteRun (id : String) :
    (deleteRun id).Effect l (Service.deleteRun id l).2 := by
  unfold Service.deleteRun
  have hg := Service.getRun_apply id l
  rcases hr : l.store.run? id with _ | r
  · rw [hr] at hg
    rw [Provision.Effect.bind_error hg]
    exact .refused _
  · rw [hr] at hg
    rw [Provision.Effect.bind_ok hg]
    split_ifs with hd
    · exact .refused _
    · obtain rfl := Store.run?_id hr
      unfold Service.removeRun
      change Effect l _ ((Service.commit_ _ >>= _) l).2
      rw [Service.commit_unit_bind, Store.deleteRun]
      split_ifs
      · exact .runDeleted r hr (by simpa using hd)
      · exact .refused _

theorem effect_cancel (id : String) : (cancel id).Effect l (Service.cancel id l).2 := by
  unfold Service.cancel
  rw [Provision.Effect.bind_ok (Service.now_apply l), Provision.Effect.bind_ok (Service.store_apply l)]
  refine effect_of_value _ (effect_of_transition rfl fun r r' h => ?_)
  obtain ⟨⟨r₁, flag⟩, h₁, h₂⟩ := Run.ok_of_map h
  cases h₂
  exact Run.outcome_of_cancel h₁

theorem effect_unlock (id : String) (requester : Holder) (force : Bool) :
    (unlock id requester force).Effect l (Service.unlockWorkspace id requester force l).2 := by
  rw [Service.unlockWorkspace_apply]
  rcases hw : l.store.workspace? id with _ | w
  · exact .refused _
  · rcases h : w.release requester force with e | w'
    · simpa [h] using Effect.refused _
    · obtain rfl := Store.workspace?_id hw
      simpa [h] using Effect.unlocked w w' requester force hw h

theorem effect_putChunk (chunk : Chunk) :
    (putChunk chunk).Effect l (Service.putChunk chunk l).2 := by
  unfold Service.putChunk
  rw [Service.commit_bind]
  rcases h : l.store.putChunk chunk with e | ⟨stored, s⟩
  · exact .refused _
  · exact .chunkStored chunk s stored h

/-- **The list of effects is complete.** -/
theorem effect (c : Request) (l : Ledger) : c.Effect l (c.perform l).2 := by
  cases c with
  | createOrganization name =>
    exact effect_of_value _ (effect_createOrganization name)
  | deleteOrganization name => exact effect_deleteOrganization name
  | createWorkspace opts => exact effect_of_value _ (effect_createWorkspace opts)
  | deleteWorkspace id => exact effect_deleteWorkspace id
  | lock id holder =>
    refine effect_of_value _ (effect_of_revise (fun _ _ h => Workspace.acquire_eq h ▸ rfl) ?_)
    rintro w w' hw h
    obtain rfl := Store.workspace?_id hw
    exact .locked w w' holder hw h
  | unlock id requester force => exact effect_of_value _ (effect_unlock id requester force)
  | setCurrentRun id run =>
    refine effect_of_value _ (effect_of_revise (fun _ _ h => by cases h; rfl) ?_)
    rintro w _ hw ⟨⟩
    obtain rfl := Store.workspace?_id hw
    exact .currentRunSet w run hw
  | setAutoApply id value =>
    refine effect_of_value _ (effect_of_revise (fun _ _ h => by cases h; rfl) ?_)
    rintro w _ hw ⟨⟩
    obtain rfl := Store.workspace?_id hw
    exact .autoApplySet w value hw
  | createRun request => exact effect_of_value _ (effect_createRun request)
  | enqueuePlan run =>
    exact effect_of_value _ (effect_of_transition rfl fun _ _ => Run.outcome_of_enqueuePlan)
  | confirm run =>
    exact effect_of_value _ (effect_of_transition rfl fun _ _ => Run.outcome_of_enqueueApply)
  | startPhase run kind agent =>
    exact effect_of_value _ (effect_of_transition rfl fun _ _ => Run.outcome_of_start)
  | finishPhase run kind result =>
    exact effect_of_value _ (effect_of_transition rfl fun _ _ => Run.outcome_of_finish)
  | cancel run => exact effect_of_value _ (effect_cancel run)
  | forceCancel run =>
    exact effect_of_value _ (effect_of_transition rfl fun _ _ => Run.outcome_of_forceCancelAt)
  | discard run =>
    exact effect_of_value _ (effect_of_transition rfl fun _ _ => Run.outcome_of_discard)
  | deleteRun run => exact effect_deleteRun run
  | putChunk chunk => exact effect_of_value _ (effect_putChunk chunk)

end Request

end Provision
