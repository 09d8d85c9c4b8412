import Provision.Proofs.Ledger.Recall
import Provision.Proofs.Scheduler.Calls
import Provision.Proofs.Scheduler.Lockstep
import Provision.Proofs.Scheduler.Single

/-!
# Whatever happens to a scheduler

Events may reach a scheduler late, again and in any order, and names may be used again.

* `Scheduler.Turn`: the store is changed, an event that recalls something is dispatched, the scheduler
  seeds, or it is replaced. `Scheduler.Reachable`: the schedulers that come about in this way.
* `Service.Deaf`: a call does not depend on what was announced. Neither does what a scheduler does
  (`Scheduler.dispatch_quiet`, `Scheduler.seed_quiet`).
* `Scheduler.Reachable.good`: queues fit what is stored, be the ledger only quiet.
-/

namespace Provision

open Effect (InStep Both)

/-! ## Calls that do not depend on what was announced -/

namespace Service

variable {α β : Type}

/-- What a call returns and stores does not depend on what was announced. -/
def Deaf (x : Service α) : Prop :=
  ∀ l l' : Ledger, l'.quiet = l.quiet →
    InStep (fun l l' => l'.quiet = l.quiet) (fun _ => False) (fun a b => b = a) (x l) (x l')

theorem deaf_pure (a : α) : Deaf (pure a) :=
  fun _ _ h => .ok rfl h

theorem deaf_throw (e : Error) : Deaf (throw e : Service α) :=
  fun _ _ h => .both (.error e) h

theorem Deaf.bind {x : Service α} {f : α → Service β} (hx : Deaf x) (hf : ∀ a, Deaf (f a)) :
    Deaf (x >>= f) :=
  fun l l' h => (hx l l' h).bind fun a _ s t _ hab hs => hab ▸ hf a s t hs

theorem deaf_store : Deaf store :=
  fun _ _ h => .ok (Ledger.store_of_quiet h) h

theorem deaf_now : Deaf now :=
  fun _ _ h => .ok (Ledger.clock_of_quiet h) h

theorem deaf_announce (e : Event) : Deaf (announce e) :=
  fun _ _ h => .ok rfl h

theorem deaf_require (value : Option α) (e : Error) : Deaf (require value e) := by
  rcases value with _ | a
  · exact deaf_throw e
  · exact deaf_pure a

theorem deaf_commit (change : Store → Except Error (α × Store)) : Deaf (commit change) := by
  refine deaf_store.bind fun s => ?_
  rcases change s with e | ⟨a, s'⟩
  · exact deaf_throw e
  · exact Deaf.bind (fun _ _ h => .ok rfl (congrArg (fun l : Ledger => { l with store := s' }) h))
      fun _ => deaf_pure a

theorem deaf_getRun (id : String) : Deaf (getRun id) :=
  deaf_store.bind fun _ => deaf_require _ _

theorem deaf_getWorkspace (id : String) : Deaf (getWorkspace id) :=
  deaf_store.bind fun _ => deaf_require _ _

theorem deaf_transition (id : String) (change : Run → Except Error Run) :
    Deaf (transition id change) :=
  (deaf_commit _).bind fun r => (deaf_announce _).bind fun _ => deaf_pure r

theorem deaf_enqueuePlan (id : String) : Deaf (enqueuePlan id) :=
  deaf_now.bind fun _ => deaf_transition id _

theorem deaf_reviseWorkspace (type : EventType) (id : String)
    (change : Workspace → Except Error Workspace) : Deaf (reviseWorkspace type id change) :=
  (deaf_commit _).bind fun w => (deaf_announce _).bind fun _ => deaf_pure w

theorem deaf_unlockWorkspace (id : String) (requester : Holder) (force : Bool) :
    Deaf (unlockWorkspace id requester force) := by
  refine deaf_store.bind fun s => ?_
  split_ifs
  · exact deaf_pure none
  · exact (deaf_reviseWorkspace _ id _).bind fun w => deaf_pure (some w)

end Service

open Service in
/-- **A scheduler does not depend on what was announced.** -/
theorem World.services_quiet : World.services.Lockstep World.services
    (fun l l' => l'.quiet = l.quiet) (fun _ _ _ => False) (fun _ _ => True) (fun _ _ _ => True)
    fun _ => True where
  queue o v :=
    { getRun := fun _ h => (deaf_getRun _ _ _ h).imp (fun _ hd => hd) fun _ _ _ hab => hab ▸ rfl
      lockWorkspace := fun {run l _} _ h =>
        (deaf_reviseWorkspace _ _ _ _ _ h).imp (fun _ hd => hd) fun _ _ ha hab =>
          ⟨hab, Service.id_of_lockWorkspace ha⟩
      enqueuePlan := fun _ _ _ _ h =>
        (deaf_enqueuePlan _ _ _ h).imp (fun _ hd => hd) fun _ _ _ _ => trivial
      launch := fun _ h => (deaf_enqueuePlan _ _ _ h).imp (fun _ hd => hd) fun _ _ _ _ => trivial
      unlockWorkspace := fun {run l _} _ h =>
        (deaf_unlockWorkspace _ _ _ _ _ h).imp (fun _ hd => hd) fun _ _ ha hab =>
          ⟨hab, fun _ hw => Service.id_of_unlockWorkspace (hw ▸ ha)⟩
      setCurrentRun := fun {run l _} _ h =>
        (deaf_reviseWorkspace _ _ _ _ _ h).imp (fun _ hd => hd) fun _ _ ha hab =>
          ⟨hab, Service.id_of_setCurrentRun ha⟩ }
  getRun {run l _} h := (deaf_getRun run _ _ h).imp (fun _ hd => hd) fun _ _ ha hab =>
    ⟨hab, Store.run?_id (Service.run?_of_getRun ha), fun _ => trivial⟩
  getWorkspace {id l _} h := (deaf_getWorkspace id _ _ h).imp (fun _ hd => hd) fun _ _ ha hab =>
    ⟨hab, Store.workspace?_id (Service.workspace?_of_getWorkspace ha)⟩
  unlockWorkspace h :=
    (deaf_unlockWorkspace _ _ _ _ _ h).imp (fun _ hd => hd) fun _ _ _ _ => trivial
  listOrganizations h := .ok (congrArg Store.organizations (Ledger.store_of_quiet h)) h
  listWorkspaces {o _ _} h :=
    .ok ⟨congrArg (·.workspacesOf o) (Ledger.store_of_quiet h), fun _ _ => trivial⟩ h
  listRuns h := .ok ⟨by rw [Ledger.store_of_quiet h],
    fun _ _ => ⟨fun _ _ _ => trivial, fun _ => trivial⟩⟩ h
  stopped h := h.elim

namespace Scheduler

open World (Matched)

variable {σ σ' : Roster × Ledger} {e : Event} {r : Roster} {l : Ledger}

/-! ## Quiet ledgers -/

theorem Good.quiet (h : Good σ) : Good (σ.1, σ.2.quiet) where
  sound := Ledger.quiet_sound h.sound.ordered
  fits o v q hq :=
    let hf := h.fits o v q hq
    ⟨hf.id, hf.issued, hf.place, hf.nodup, hf.headed, hf.eligible⟩

theorem Good.matched (h : Good (r, l.quiet)) :
    Matched (fun l l' : Ledger => l'.quiet = l.quiet) (fun _ _ _ => True) (r, l.quiet) (r, l) :=
  ⟨rfl, fun o v q hq => ⟨(h.fits o v q hq).id, fun _ _ => trivial⟩, rfl⟩

theorem not_halts {τ : Type} {M : String → String → String → Prop} {p : Roster × τ} :
    ¬ World.Halts (fun _ _ _ => False) M p := by
  intro h
  obtain ⟨_, _, hs⟩ := h.stop
  exact hs

theorem dispatch_quiet (h : Good (r, l.quiet)) (e : Event) :
    (dispatch e (r, l)).1 = (dispatch e (r, l.quiet)).1 ∧
      (dispatch e (r, l)).2.1 = (dispatch e (r, l.quiet)).2.1 ∧
      (dispatch e (r, l)).2.2.quiet = (dispatch e (r, l.quiet)).2.2.quiet := by
  have hd := (World.services_quiet.dispatch h.matched (e := e)
    fun _ _ => ⟨fun _ => trivial, fun _ => trivial⟩).abreast
  obtain ⟨hr, hm⟩ := hd.resolve_right not_halts
  exact ⟨hr, hm.roster, hm.state⟩

theorem seed_quiet (h : Good (r, l.quiet)) :
    (seed (r, l)).1 = (seed (r, l.quiet)).1 ∧ (seed (r, l)).2.1 = (seed (r, l.quiet)).2.1 ∧
      (seed (r, l)).2.2.quiet = (seed (r, l.quiet)).2.2.quiet := by
  obtain ⟨hr, hm⟩ := (World.services_quiet.seed h.matched).resolve_right not_halts
  exact ⟨hr, hm.roster, hm.state⟩

/-! ## Turns -/

/-- What may happen while a scheduler is at work. -/
inductive Turn (σ : Roster × Ledger) : Roster × Ledger → Prop
  /-- The clock is read anew, or somebody makes a call, whoever it is. -/
  | deed (d : Deed) : Turn σ (σ.1, d.on σ.2)
  /-- An event arrives, perhaps late or again. -/
  | dispatch (e : Event) : σ.2.Recalls e → Turn σ (dispatch e σ).2
  | seed : Turn σ (seed σ).2
  /-- A new scheduler takes over. -/
  | replace : Turn σ ([], σ.2)

/-- The schedulers that come about, with the ledgers they work on. -/
def Reachable (σ : Roster × Ledger) : Prop :=
  Relation.ReflTransGen Turn ([], {}) σ

theorem Reachable.after {calls : List Request} (h : Reachable (r, l)) : Reachable (r, l.after calls) := by
  induction calls generalizing l with
  | nil => exact h
  | cons c calls ih => exact ih (h.tail (.deed (.request c)))

/-- An event that carries neither a workspace nor a run changes nothing that is stored, and makes no
queues. -/
theorem dispatch_aside (hw : ∀ ws : Workspace, e.payload ≠ .workspace ws)
    (hr : ∀ x : Run, e.payload ≠ .run x) (σ : Roster × Ledger) :
    (dispatch e σ).2.2 = σ.2 ∧
      ∀ o v q, (dispatch e σ).2.1.queue? o v = some q → σ.1.queue? o v = some q := by
  rcases e with ⟨type, payload, isLocal⟩
  cases payload with
  | workspace ws => exact absurd rfl (hw ws)
  | run x => exact absurd rfl (hr x)
  | chunk c => cases type <;> exact ⟨rfl, fun _ _ _ h => h⟩
  | organization org =>
    cases type with
    | organizationCreated =>
      exact ⟨rfl, fun o v q h => Roster.queue?_ensure σ.1 org.name o v ▸ h⟩
    | _ => exact ⟨rfl, fun _ _ _ h => h⟩
  | deleted relation id =>
    cases type with
    | organizationDeleted =>
      exact ⟨rfl, fun o v q h => Roster.queue?_of_filter (fun o => o != id) h⟩
    | workspaceDeleted =>
      exact ⟨rfl, fun o v q h => Roster.queue?_of_drop h⟩
    | _ => exact ⟨rfl, fun _ _ _ h => h⟩

theorem Turn.later (h : Turn σ σ') : σ.2.Later σ'.2 := by
  cases h with
  | deed d => exact .deed d σ.2
  | dispatch e _ => exact .of_moves (dispatch_moves e σ)
  | seed => exact .of_moves (seed_moves σ)
  | replace => exact .refl

theorem Reachable.later (h : Reachable σ) : Ledger.Later {} σ.2 := by
  induction h with
  | refl => exact .refl
  | tail _ ht ih => exact ih.trans ht.later

theorem Reachable.ordered (h : Reachable σ) : σ.2.store.Ordered σ.2.supply :=
  h.later.ordered .empty

theorem recalls_backs (hl : Ledger.Later {} l) (h : l.Recalls e)
    (hp : (∃ ws, e.payload = .workspace ws) ∨ ∃ x, e.payload = .run x) : l.quiet.Backs e := by
  rcases hp with ⟨ws, hp⟩ | ⟨x, hp⟩
  · exact .workspace ws hp (h.workspace hl hp)
  · refine .vouched ?_
    have hx := h.run hl hp
    rw [Ledger.Vouches, hp]
    exact hx

/-- **Every turn keeps the queues in line** with what is stored. -/
theorem Turn.good (h : Turn σ σ') (hl : Ledger.Later {} σ.2) (hg : Good (σ.1, σ.2.quiet)) :
    Good (σ'.1, σ'.2.quiet) := by
  cases h with
  | deed d =>
    have hgr := (Ledger.Later.deed d σ.2).grows
    exact ⟨Ledger.quiet_sound (d.ordered hg.sound.ordered), fun o v q hq => (hg.fits o v q hq).mono hgr⟩
  | dispatch e hr =>
    by_cases hp : (∃ ws, e.payload = .workspace ws) ∨ ∃ x, e.payload = .run x
    · obtain ⟨-, hroster, hquiet⟩ := dispatch_quiet hg e
      have hd := (dispatch_good hg (recalls_backs hl hr hp)).1.quiet
      rw [← hroster, ← hquiet] at hd
      exact hd
    · rw [not_or, not_exists, not_exists] at hp
      obtain ⟨hstore, hq⟩ := dispatch_aside hp.1 hp.2 σ
      rw [hstore]
      exact hg.trim hq
  | seed =>
    obtain ⟨-, hroster, hquiet⟩ := seed_quiet hg
    have hd := (seed_good hg).quiet
    rw [← hroster, ← hquiet] at hd
    exact hd
  | replace => exact hg.forget

/-- **Queues fit what is stored**, whatever happens. -/
theorem Reachable.good (h : Reachable σ) : Good (σ.1, σ.2.quiet) := by
  induction h with
  | refl => exact Good.empty
  | tail hr ht ih => exact ht.good (Reachable.later hr) ih

end Scheduler

end Provision
