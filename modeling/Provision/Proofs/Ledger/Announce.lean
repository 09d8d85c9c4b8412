import Provision.Proofs.Ledger.Deed
import Provision.Proofs.Ledger.Move
import Provision.Proofs.Store.Chronicle
import Provision.Proofs.Store.Record

/-!
# Changes and their announcements

A call of the services that is not refused comes down to one operation of the store, and one event
announces what the operation returned. Only a workspace that is gone is unlocked without any change.

* `Service.Atomic`: a call is refused and changes no record, or it is done.
* `Request.performs`: how a call that is done comes down to an operation.
* `Request.announces`: the store and the events move together.
-/

namespace Provision

namespace Service

/-! ## Calls that are refused or done -/

/-- The call is refused, and no record and no event comes of it, or it is done. -/
def Atomic {α : Type} (x : Service α) (l : Ledger) (done : Ledger → Prop) : Prop :=
  (∃ e, (x l).1 = .error e ∧ (x l).2.store = l.store ∧ (x l).2.announced = l.announced) ∨
    ∃ a, (x l).1 = .ok a ∧ done (x l).2

section Atomic

variable {α β : Type} {x : Service α} {f : α → Service β} {l l' : Ledger} {a : α}
  {done : Ledger → Prop}

theorem atomic_refused {e : Error} (h : x l = (.error e, l)) : Atomic x l done := by
  refine .inl ⟨e, ?_, ?_, ?_⟩
  · rw [h]
  · rw [h]
  · rw [h]

theorem atomic_bind (hx : x l = (.ok a, l')) (hs : l'.store = l.store)
    (ha : l'.announced = l.announced) (h : Atomic (f a) l' done) : Atomic (x >>= f) l done := by
  rw [Atomic, Effect.bind_ok hx]
  rw [Atomic, hs, ha] at h
  exact h

theorem atomic_value (g : α → β) (h : Atomic x l done) :
    Atomic (do return g (← x) : Service β) l done := by
  rcases hx : x l with ⟨e | a, l'⟩
  · rw [Atomic, Effect.bind_error hx]
    rw [Atomic, hx] at h
    obtain ⟨e', he, hl⟩ | ⟨a, ha, -⟩ := h
    · exact .inl ⟨e, rfl, hl⟩
    · cases ha
  · rw [Atomic, Effect.bind_ok hx]
    rw [Atomic, hx] at h
    obtain ⟨e, he, -⟩ | ⟨a, ha, hl⟩ := h
    · cases he
    · exact .inr ⟨g _, rfl, hl⟩

/-- **A change of the store and the event that announces it.** -/
theorem atomic_commit {change : Store → Except Error (α × Store)} (e : α → Event) (g : α → β)
    (h : ∀ a s, change l.store = .ok (a, s) → done (l.post s (e a))) :
    Atomic (do
      let a ← commit change
      announce (e a)
      return g a) l done := by
  rw [Atomic, commit_bind]
  rcases hc : change l.store with e' | ⟨a, s⟩
  · exact .inl ⟨e', rfl, rfl, rfl⟩
  · exact .inr ⟨g a, rfl, h a s hc⟩

theorem atomic_commit_unit {change : Store → Except Error Store} (e : Event) (b : β)
    (h : ∀ s, change l.store = .ok s → done (l.post s e)) :
    Atomic (do
      commit_ change
      announce e
      return b) l done := by
  rw [Atomic, commit_unit_bind]
  rcases hc : change l.store with e' | s
  · exact .inl ⟨e', rfl, rfl, rfl⟩
  · exact .inr ⟨b, rfl, h s hc⟩

end Atomic

end Service

/-! ## One operation, one event -/

theorem Workspace.revise_singleton (v : Workspace.Revision) (w : Workspace) :
    w.revise [v] = v.on w := by
  rw [Workspace.revise, List.foldlM_cons]
  cases v.on w <;> rfl

theorem Run.revise_singleton (a : Run.Attempt) (r : Run) :
    r.revise [a] = (r.perform a.action a.now a.later).map (·.1) := by
  rw [Run.revise, List.foldlM_cons]
  cases (r.perform a.action a.now a.later).map (·.1) <;> rfl

namespace Request

/-- The type of the event that announces a call. -/
def type : Request → EventType
  | .createOrganization _ => .organizationCreated
  | .deleteOrganization _ => .organizationDeleted
  | .createWorkspace _ => .workspaceCreated
  | .deleteWorkspace _ => .workspaceDeleted
  | .lock _ _ => .workspaceLocked
  | .unlock _ _ _ => .workspaceUnlocked
  | .setCurrentRun _ _ => .workspaceUpdated
  | .setAutoApply _ _ => .workspaceUpdated
  | .createRun _ => .runCreated
  | .enqueuePlan _ => .runStatusUpdate
  | .confirm _ => .runStatusUpdate
  | .startPhase _ _ _ => .runStatusUpdate
  | .finishPhase _ _ _ => .runStatusUpdate
  | .cancel _ => .runStatusUpdate
  | .forceCancel _ => .runStatusUpdate
  | .discard _ => .runStatusUpdate
  | .deleteRun _ => .runDeleted
  | .putChunk _ => .chunkCreated

/-- The key of the record that a call is about, unless it comes about by the call. -/
def target? : Request → Option Key
  | .createOrganization name => some (.organization name)
  | .deleteOrganization name => some (.organization name)
  | .createWorkspace _ => none
  | .deleteWorkspace id => some (.workspace id)
  | .lock id _ => some (.workspace id)
  | .unlock id _ _ => some (.workspace id)
  | .setCurrentRun id _ => some (.workspace id)
  | .setAutoApply id _ => some (.workspace id)
  | .createRun _ => none
  | .enqueuePlan id => some (.run id)
  | .confirm id => some (.run id)
  | .startPhase id _ _ => some (.run id)
  | .finishPhase id _ _ => some (.run id)
  | .cancel id => some (.run id)
  | .forceCancel id => some (.run id)
  | .discard id => some (.run id)
  | .deleteRun id => some (.run id)
  | .putChunk _ => none

/-- An unlocking of a workspace that is gone, which returns nothing. -/
def IsVain (c : Request) (l : Ledger) : Prop :=
  ∃ id requester force, c = .unlock id requester force ∧
    (Service.unlockWorkspace id requester force l).1 = .ok none

/-- The call came down to one operation, and one event announces what that returned. -/
def Performs (c : Request) (l l' : Ledger) : Prop :=
  ∃ (op : Store.Operation) (p : Payload), c.type ∈ op.types ∧
    (∀ t ∈ c.target?, op.key? = some t) ∧ op.Fits l.store ∧
    op.perform l.store = .ok (p, l'.store) ∧
    l'.announced = l.announced ++ [{ type := c.type, payload := p }]

section Performs

open Service

variable {l : Ledger} {id : String}

theorem performs_update (c : Request) (v : Workspace.Revision)
    {change : Workspace → Except Error Workspace} (hv : ∀ w, change w = v.on w)
    (hc : c.target? = some (.workspace id))
    (ht : c.type ∈ (Store.Operation.updateWorkspace id [v]).types) :
    Atomic (reviseWorkspace c.type id change) l (c.Performs l) := by
  have he : change = (·.revise [v]) := funext fun w => by rw [hv, Workspace.revise_singleton]
  refine atomic_commit _ _ fun w s hs => ?_
  rw [he] at hs
  refine ⟨.updateWorkspace id [v], .workspace w, ht, fun t hm => hc.symm.trans hm, trivial, ?_, rfl⟩
  rw [Store.Operation.perform, hs]
  rfl

theorem performs_action (c : Request) (action : Action) {change : Run → Except Error Run}
    (hv : ∀ r, change r = (r.perform action l.clock l.clock).map (·.1))
    (hc : c.target? = some (.run id)) (ht : c.type = .runStatusUpdate) :
    Atomic (transition id change) l (c.Performs l) := by
  have he : change = (·.revise [⟨action, l.clock, l.clock⟩]) :=
    funext fun r => by rw [hv, Run.revise_singleton]
  refine atomic_commit _ _ fun r s hs => ?_
  rw [he] at hs
  refine ⟨.updateRun id [⟨action, l.clock, l.clock⟩], .run r, ht ▸ List.mem_singleton_self _,
    fun t hm => hc.symm.trans hm, trivial, ?_, ht ▸ rfl⟩
  rw [Store.Operation.perform, hs]
  rfl

/-- **A call that comes down to an action** at the time it is made. -/
theorem performs_now (c : Request) (action : Action) {change : Run → Instant → Except Error Run}
    (hv : ∀ r t, r.perform action t t = (change r t).map (·, none))
    (hc : c.target? = some (.run id)) (ht : c.type = .runStatusUpdate) :
    Atomic (do let _ ← (do let t ← now; transition id (change · t)) : Service Unit) l
      (c.Performs l) := by
  refine atomic_value _ (atomic_bind (now_apply l) rfl rfl ?_)
  refine performs_action c action (fun r => ?_) hc ht
  rw [hv]
  cases change r l.clock <;> rfl

theorem performs_createOrganization (name : String) :
    Atomic (Service.createOrganization name) l ((createOrganization name).Performs l) := by
  refine atomic_bind (now_apply l) rfl rfl ?_
  rcases ho : Organization.new name l.clock with e | org
  · exact atomic_refused (Effect.bind_error rfl)
  · have hn : org.name = name := by
      unfold Organization.new at ho
      split_ifs at ho
      cases ho
      rfl
    refine atomic_bind rfl rfl rfl (atomic_commit_unit _ _ fun s hs => ?_)
    refine ⟨.createOrganization org, .organization org, List.mem_singleton_self _, ?_, trivial, ?_,
      rfl⟩
    · intro t ht
      rw [← ht, ← hn]
      rfl
    · rw [Store.Operation.perform, hs]
      rfl

theorem performs_deleteOrganization (name : String) :
    Atomic (Service.deleteOrganization name) l ((deleteOrganization name).Performs l) := by
  refine atomic_commit_unit _ () fun s hs => ?_
  refine ⟨.deleteOrganization name, .deleted "organization" name, List.mem_singleton_self _,
    fun t ht => ht, trivial, ?_, rfl⟩
  rw [Store.Operation.perform, hs]
  rfl

theorem performs_of_createWorkspace (opts : NewWorkspace) {ws : Workspace} {s : Store}
    (hs : l.store.createWorkspace ws = .ok s) : (createWorkspace opts).Performs l
      (l.spend.post s (Event.ofWorkspace .workspaceCreated ws)) := by
  refine ⟨.createWorkspace ws, .workspace ws, List.mem_singleton_self _, nofun, trivial, ?_, rfl⟩
  rw [Store.Operation.perform, hs]
  rfl

theorem performs_createWorkspace (opts : NewWorkspace) :
    Atomic (Service.createWorkspace opts) l ((createWorkspace opts).Performs l) := by
  unfold Service.createWorkspace
  split_ifs with hn
  · exact atomic_refused rfl
  refine atomic_bind (store_apply l) rfl rfl ?_
  split_ifs with ho
  · exact atomic_refused (Effect.bind_error rfl)
  refine atomic_bind (number_apply l) rfl rfl (atomic_bind (now_apply l.spend) rfl rfl ?_)
  exact atomic_commit_unit _ _ fun s hs => performs_of_createWorkspace opts hs

theorem performs_deleteWorkspace (id : String) :
    Atomic (Service.deleteWorkspace id) l ((deleteWorkspace id).Performs l) := by
  refine atomic_commit_unit _ () fun s hs => ?_
  refine ⟨.deleteWorkspace id, .deleted "workspace" id, List.mem_singleton_self _,
    fun t ht => ht, trivial, ?_, rfl⟩
  rw [Store.Operation.perform, hs]
  rfl

theorem performs_of_createRun (request : RunRequest) {run : Run} {s : Store}
    (hs : l.store.createRun run = .ok s)
    (hf : ∀ w ∈ l.store.workspaces, w.id = run.workspace → w.organization = run.organization) :
    (createRun request).Performs l
      (l.spend.post s { type := .runCreated, payload := .run run }) := by
  refine ⟨.createRun run, .run run, List.mem_singleton_self _, nofun, hf, ?_, rfl⟩
  rw [Store.Operation.perform, hs]
  rfl

theorem performs_createRun (h : l.store.Rooted) (request : RunRequest) :
    Atomic (Service.createRun request) l ((createRun request).Performs l) := by
  have hg := getWorkspace_apply request.workspace l
  rcases hw : l.store.workspace? request.workspace with _ | w
  · rw [hw] at hg
    exact atomic_refused (Effect.bind_error hg)
  rw [hw] at hg
  refine atomic_bind hg rfl rfl ?_
  refine atomic_bind (number_apply l) rfl rfl (atomic_bind (now_apply l.spend) rfl rfl ?_)
  refine atomic_commit_unit _ _ fun s hs => performs_of_createRun request hs fun v hv hid => ?_
  -- The run is in the organization of the workspace that was found.
  rw [Keyed.eq_of_key h.workspaces hv (Store.workspace?_mem hw) hid]
  rfl

theorem performs_deleteRun (id : String) :
    Atomic (Service.deleteRun id) l ((deleteRun id).Performs l) := by
  have hg := getRun_apply id l
  rcases hr : l.store.run? id with _ | r
  · rw [hr] at hg
    exact atomic_refused (Effect.bind_error hg)
  rw [hr] at hg
  refine atomic_bind hg rfl rfl ?_
  split_ifs with hd
  · exact atomic_refused rfl
  refine atomic_commit_unit _ () fun s hs => ?_
  refine ⟨.deleteRun id, .deleted "run" id, List.mem_singleton_self _, fun t ht => ht, trivial, ?_,
    rfl⟩
  rw [Store.Operation.perform, hs]
  rfl

theorem performs_putChunk (chunk : Chunk) :
    Atomic (Service.putChunk chunk) l ((putChunk chunk).Performs l) := by
  refine atomic_commit _ _ fun c s hs => ?_
  refine ⟨.putChunk chunk, .chunk c, List.mem_singleton_self _, nofun, trivial, ?_, rfl⟩
  rw [Store.Operation.perform, hs]
  rfl

theorem performs_unlock (requester : Holder) (force : Bool)
    (hw : (l.store.workspace? id).isNone = false) :
    Atomic (unlockWorkspace id requester force) l ((unlock id requester force).Performs l) := by
  refine atomic_bind (store_apply l) rfl rfl ?_
  rw [hw, if_neg Bool.false_ne_true]
  refine atomic_value some ?_
  exact performs_update (unlock id requester force) (.release requester force) (fun _ => rfl) rfl
    (by simp [Store.Operation.types, type])

end Performs

variable {l : Ledger}

open Service in
/-- **Every call but a vain one** is refused, or comes down to one operation and one event. -/
theorem performs (h : l.store.Rooted) (c : Request) (hv : ¬ c.IsVain l) :
    Atomic c.perform l (c.Performs l) := by
  cases c with
  | createOrganization name => exact atomic_value _ (performs_createOrganization name)
  | deleteOrganization name => exact performs_deleteOrganization name
  | createWorkspace opts => exact atomic_value _ (performs_createWorkspace opts)
  | deleteWorkspace id => exact performs_deleteWorkspace id
  | lock id holder =>
    exact atomic_value _ (performs_update (lock id holder) (.acquire holder) (fun _ => rfl) rfl
      (by simp [Store.Operation.types, type]))
  | unlock id requester force =>
    refine atomic_value _ (performs_unlock requester force ?_)
    by_contra hn
    have hw : l.store.workspace? id = none := by simpa using hn
    refine hv ⟨id, requester, force, rfl, ?_⟩
    rw [unlockWorkspace_apply, hw]
  | setCurrentRun id run =>
    exact atomic_value _ (performs_update (setCurrentRun id run) (.setCurrentRun (some run))
      (fun _ => rfl) rfl (by simp [Store.Operation.types, type]))
  | setAutoApply id value =>
    exact atomic_value _ (performs_update (setAutoApply id value) (.setAutoApply value)
      (fun _ => rfl) rfl (by simp [Store.Operation.types, type]))
  | createRun request => exact atomic_value _ (performs_createRun h request)
  | enqueuePlan id => exact performs_now (enqueuePlan id) .enqueuePlan (fun _ _ => rfl) rfl rfl
  | confirm id => exact performs_now (confirm id) .enqueueApply (fun _ _ => rfl) rfl rfl
  | startPhase id kind agent =>
    exact performs_now (startPhase id kind agent) (.start kind agent) (fun _ _ => rfl) rfl rfl
  | finishPhase id kind result =>
    exact performs_now (finishPhase id kind result) (.finish kind result) (fun _ _ => rfl) rfl rfl
  | cancel id =>
    refine atomic_value _ (atomic_bind (now_apply l) rfl rfl ?_)
    refine atomic_bind (store_apply l) rfl rfl (atomic_value _ ?_)
    refine performs_action (cancel id) .cancel (fun r => ?_) rfl rfl
    rw [Run.perform]
    cases r.cancel l.clock <;> rfl
  | forceCancel id => exact performs_now (forceCancel id) .forceCancel (fun _ _ => rfl) rfl rfl
  | discard id => exact performs_now (discard id) .discard (fun _ _ => rfl) rfl rfl
  | deleteRun id => exact performs_deleteRun id
  | putChunk chunk => exact atomic_value _ (performs_putChunk chunk)

theorem perform_of_isVain {c : Request} (h : c.IsVain l) : (c.perform l).2 = l := by
  obtain ⟨id, requester, force, rfl, hn⟩ := h
  have hu := Service.unlockWorkspace_apply id requester force l
  rw [perform, Effect.snd_discard]
  rcases hw : l.store.workspace? id with _ | w
  · rw [hu, hw]
  · rw [hu, hw] at hn
    rcases hr : w.release requester force with e | w'
    · simp [hr] at hn
    · simp [hr] at hn

variable {log : List Store.Entry}

/-- **The services keep to the operations of the store**: what they do is part of its history. -/
theorem chronicle (h : Store.Chronicle log l.store) (c : Request) :
    ∃ log', Store.Chronicle log' (c.perform l).2.store := by
  by_cases hv : c.IsVain l
  · rw [perform_of_isVain hv]
    exact ⟨log, h⟩
  · obtain ⟨e, -, hs, -⟩ | ⟨a, -, op, p, -, -, hf, hp, -⟩ := c.performs h.rooted hv
    · exact ⟨log, hs ▸ h⟩
    · exact ⟨_, h.accepted op hf hp⟩

end Request

/-- **Whatever the services and the clock bring about** has a history. -/
theorem Ledger.exists_chronicle {l : Ledger} (h : ∃ log, Store.Chronicle log l.store)
    (deeds : List Deed) : ∃ log, Store.Chronicle log (deeds.foldl (fun l d => d.on l) l).store := by
  induction deeds generalizing l with
  | nil => exact h
  | cons d deeds ih =>
    refine ih ?_
    obtain ⟨log, hlog⟩ := h
    cases d with
    | tick now => exact ⟨log, hlog⟩
    | request c => exact c.chronicle hlog

namespace Request

variable {l : Ledger} {log : List Store.Entry}

/-- **The store and the events move together.** A call that is refused leaves every record as it was
and is not announced. One that is not is announced by one event, whose payload is the record as it is
stored then or a reference to what was removed, and nothing else happens. -/
theorem announces (h : Store.Chronicle log l.store) (c : Request) :
    (∀ e, (c.perform l).1 = .error e →
      (c.perform l).2.store = l.store ∧ (c.perform l).2.announced = l.announced) ∧
    (c.IsVain l → (c.perform l).2 = l) ∧
    ((c.perform l).1 = .ok () → ¬ c.IsVain l → ∃ k p,
      (c.perform l).2.announced = l.announced ++ [{ type := c.type, payload := p }] ∧
        (∀ t ∈ c.target?, k = t) ∧ l.store.Turns c.type k p (c.perform l).2.store) := by
  refine ⟨fun e he => ?_, perform_of_isVain, fun hok hv => ?_⟩
  · by_cases hv : c.IsVain l
    · rw [perform_of_isVain hv]
      exact ⟨rfl, rfl⟩
    · obtain ⟨e', -, hl⟩ | ⟨a, ha, -⟩ := c.performs h.rooted hv
      · exact hl
      · rw [he] at ha
        cases ha
  · obtain ⟨e', he, -⟩ | ⟨a, -, op, p, ht, hk, -, hp, hl⟩ := c.performs h.rooted hv
    · rw [hok] at he
      cases he
    · obtain ⟨k, hkey, hturns⟩ := (Store.Operation.outcome hp).turns h.rooted h.logged
      exact ⟨k, p, hl, fun t hm => hkey t (hk t hm), hturns c.type ht⟩

/-- A pending run cannot be deleted, and its organization can. -/
theorem announces_firstRun :
    ((deleteRun (Identifier.fresh Run.stem 1)).perform Ledger.firstRun).2.announced =
        Ledger.firstRun.announced ∧
      ∃ k p, ((deleteOrganization "acme").perform Ledger.firstRun).2.announced =
          Ledger.firstRun.announced ++ [{ type := .organizationDeleted, payload := p }] ∧
        (∀ t ∈ (deleteOrganization "acme").target?, k = t) ∧
        Ledger.firstRun.store.Turns .organizationDeleted k p
          ((deleteOrganization "acme").perform Ledger.firstRun).2.store := by
  obtain ⟨log, hlog⟩ : ∃ log, Store.Chronicle log Ledger.firstRun.store :=
    Ledger.exists_chronicle ⟨[], .start⟩ [.request (.createOrganization "acme"),
      .request (.createWorkspace { name := "prod", organization := "acme" }),
      .request (.createRun { workspace := Identifier.fresh Workspace.stem 0 })]
  obtain ⟨hrefused, -, -⟩ := announces hlog (deleteRun (Identifier.fresh Run.stem 1))
  obtain ⟨-, -, hdone⟩ := announces hlog (deleteOrganization "acme")
  have he : ((deleteRun (Identifier.fresh Run.stem 1)).perform Ledger.firstRun).1 =
      .error (.invalidTransition (Identifier.fresh Run.stem 1) "delete" "pending") := by
    decide +kernel
  refine ⟨(hrefused _ he).2, hdone (by decide +kernel) ?_⟩
  rintro ⟨_, _, _, ⟨⟩, -⟩

end Request

end Provision
