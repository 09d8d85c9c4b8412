import Provision.Proofs.Queue.Laws
import Provision.Proofs.Scheduler.Roster

/-!
# A scheduler in any world

Other parties act between two calls of a scheduler. To see its calls one by one, the scheduler is run in
a `World`, of which the services are an instance (`World.dispatch_services`, `World.seed_services`).

* `Backend.Laws.feed`: what a queue does when it is fed.
* `World.Laws b R Used Ended`: every call of the world is a step of `R`, provided that the scheduler asks
  for what it may.
* `World.Laws.dispatch`, `World.Laws.seed`: a scheduler in such a world only ever makes steps of `R`.
-/

namespace Provision

/-- What a scheduler asks of the world, whose state is of type `σ`. -/
structure World (σ : Type) extends Backend σ where
  listOrganizations : ExceptT Error (StateM σ) (List Organization)
  /-- The workspaces of an organization. -/
  listWorkspaces : String → ExceptT Error (StateM σ) (List Workspace)
  listRuns : RunFilter → ExceptT Error (StateM σ) (List Run)

namespace World

/-- The services as a world. -/
def services : World Ledger where
  toBackend := Backend.services
  listOrganizations := Service.listOrganizations
  listWorkspaces := Service.listWorkspaces
  listRuns := Service.listRuns

variable {σ : Type}

/-- A step of a scheduler on its roster and the world. -/
abbrev Step (σ α : Type) := ExceptT Error (StateM (Roster × σ)) α

/-- The roster. -/
def roster : Step σ Roster := do
  return (← get).1

/-- Change the roster. -/
def revise (f : Roster → Roster) : Step σ Unit :=
  modify fun s => (f s.1, s.2)

/-- A call of the world. -/
def call {α : Type} (x : ExceptT Error (StateM σ) α) : Step σ α :=
  fun s =>
    let r := x s.2
    (r.1, (s.1, r.2))

/-- The outcome of a step, be it a value or a refusal. -/
def attempt {α : Type} (x : Step σ α) : Step σ (Except Error α) :=
  fun s =>
    let r := x s
    (.ok r.1, r.2)

/-- A step of one queue, if there is such a queue. -/
def inQueue (organization workspace : String) (x : Queue.Step σ Unit) : Step σ Unit :=
  fun s =>
    match s.1.queue? organization workspace with
    | none => (.ok (), s)
    | some q =>
      let r := x (q, s.2)
      (r.1, (s.1.revise organization (·.put workspace r.2.1), r.2.2))

/-- See that there is a queue for a workspace. -/
def ensureQueue (ws : Workspace) : Step σ Unit :=
  revise fun r =>
    let r := r.ensure ws.organization
    if (r.queue? ws.organization ws.id).isSome then r
    else r.revise ws.organization (·.put ws.id { workspace := ws })

variable (b : World σ)

/-- Hand the event of a run to the queue of its workspace. -/
def dispatchRun (e : Event) (run : Run) : Step σ Unit := do
  revise (·.ensure run.organization)
  if ((← roster).queue? run.organization run.workspace).isNone then
    match ← attempt (call (b.getWorkspace run.workspace)) with
    | .ok ws => revise (·.revise run.organization (·.put ws.id { workspace := ws }))
    | .error e => if e.isNotFound then return else throw e
  inQueue run.organization run.workspace (Queue.handle b.toBackend e)

/-- Hand an event to the queue it concerns. -/
def dispatch (e : Event) : Step σ Unit :=
  match e.type, e.payload with
  | .organizationCreated, .organization org => revise (·.ensure org.name)
  | .organizationDeleted, .deleted _ name =>
    revise (·.filter fun b => b.organization != name)
  | .workspaceDeleted, .deleted _ id => revise (·.map (·.drop id))
  | _, .workspace ws => do
    ensureQueue ws
    inQueue ws.organization ws.id (Queue.handle b.toBackend e)
  | _, .run run => b.dispatchRun e run
  | _, _ => return

/-- Open the lock of a workspace that is still held by a run which is done or gone. -/
def releaseStaleLock (ws : Workspace) (active : Option Run) : Step σ Unit := do
  match ws.lock with
  | some (.run holder) =>
    if active.any fun r => r.id == holder then return
    let isStale := match ← attempt (call (b.getRun holder)) with
      | .ok run => run.isDone
      | .error e => e.isNotFound
    if isStale then
      let _ ← attempt (call (b.unlockWorkspace ws.id (.run holder) false))
  | _ => return

/-- Bring a queue up to date with a run it tracks. -/
def refresh (run : String) : Queue.Step σ Unit := do
  match ← Queue.attempt (Queue.call (b.getRun run)) with
  | .ok run => Queue.handle b.toBackend (Event.runStatus run)
  | .error e => if e.isNotFound then Queue.forget b.toBackend run else throw e

/-- Feed a queue what is stored. -/
def feed (ws : Workspace) (runs : List Run) : Queue.Step σ Unit := do
  Queue.handle b.toBackend
    { type := .workspaceUpdated, payload := .workspace ws, isLocal := true }
  (← Queue.self).tracked.forM b.refresh
  ((runs.filter (·.isActive)) ++ runs.filter fun r => !r.isActive).forM fun r =>
    Queue.handle b.toBackend (Event.runStatus r)
  Queue.retry b.toBackend

/-- Bring the queue of a workspace in line with what is stored. -/
def seedWorkspace (ws : Workspace) : Step σ Unit := do
  let runs ← call (b.listRuns { workspace := some ws.id, statuses := some Scheduler.unfinished })
  let active := runs.filter (·.isActive)
  if 1 < active.length then throw (Scheduler.violation ws.id active)
  b.releaseStaleLock ws active.head?
  ensureQueue ws
  let _ ← attempt (inQueue ws.organization ws.id (b.feed ws runs))

/-- Bring the queues of an organization in line with what is stored. -/
def seedOrganization (org : Organization) : Step σ Unit := do
  let workspaces ← call (b.listWorkspaces org.name)
  revise fun r => (r.ensure org.name).revise org.name (·.keep (workspaces.map (·.id)))
  workspaces.forM b.seedWorkspace

/-- Bring all queues in line with what is stored. -/
def seed : Step σ Unit := do
  let organizations ← call b.listOrganizations
  revise (·.filter fun b => (organizations.map (·.name)).contains b.organization)
  organizations.forM b.seedOrganization

theorem dispatch_services (e : Event) : services.dispatch e = Scheduler.dispatch e := rfl

theorem seed_services : services.seed = Scheduler.seed := rfl

end World

/-! ## The work of a queue in a seed -/

namespace Backend.Laws

variable {σ : Type} {b : World σ} {R : σ → σ → Prop} {Used Ended : String → σ → Prop} {t : Queue × σ}
  {run : String} (h : b.toBackend.Laws R Used Ended)

include h

theorem refresh (hu : Used run t.2) : Keeps R (Tracks Used) t (b.refresh run t).2 := by
  unfold World.refresh
  refine h.keeps_bind (x := Queue.attempt _) (h.keeps_call (h.getRun run _)) fun a t₁ ht hR _ => ?_
  obtain ⟨rfl, rfl⟩ : (b.getRun run t.2).1 = a ∧ (t.1, (b.getRun run t.2).2) = t₁ :=
    ⟨Except.ok.inj (congrArg Prod.fst ht), congrArg Prod.snd ht⟩
  rcases hg : b.getRun run t.2 with ⟨e | r, s'⟩
  · rw [hg] at hR
    refine keeps_ite (fun hn => ?_) fun _ => h.keeps_refl _ _
    exact h.forget (h.gone hg (h.used hR hu) hn)
  · have hu' := h.used hR hu
    rw [hg] at hu'
    obtain ⟨hid, he⟩ := h.found hg hu'
    refine h.handle fun x hx => ?_
    cases hx
    exact hid.symm ▸ ⟨hu', he⟩

/-- **The work of a queue in a seed.** -/
theorem feed (ws : Workspace) {runs : List Run}
    (hr : ∀ r ∈ runs, r.isDone = false ∧ Used r.id t.2) :
    Keeps R (Tracks Used) t (b.feed ws runs t).2 := by
  have hwork : Told Used Ended
      { type := .workspaceUpdated, payload := .workspace ws, isLocal := true } t.2 :=
    fun run hp => by cases hp
  unfold World.feed
  refine h.keeps_bind (h.handle hwork) fun _ t₁ _ hR₁ hi₁ => ?_
  refine h.keeps_bind (h.keeps_refl _ t₁) fun q t₂ ht _ _ => ?_
  obtain ⟨rfl, rfl⟩ : t₁.1 = q ∧ t₁ = t₂ :=
    ⟨Except.ok.inj (congrArg Prod.fst ht), congrArg Prod.snd ht⟩
  refine h.keeps_bind (h.keeps_forM fun run hm t' hR => h.refresh (h.used hR (hi₁ run hm)))
    fun _ t₃ _ hR₃ _ => ?_
  refine h.keeps_bind (h.keeps_forM fun r hm t' hR => h.handle fun x hx => ?_)
    fun _ t₄ _ _ _ => h.retry t₄
  cases hx
  have hm : r ∈ runs := by
    rcases List.mem_append.mp hm with hm | hm <;> exact List.mem_of_mem_filter hm
  obtain ⟨hd, hu⟩ := hr r hm
  exact ⟨h.used (h.trans hR₁ (h.trans hR₃ hR)) hu, fun hd' => by simp [hd] at hd'⟩

end Backend.Laws

/-! ## What a scheduler can rely on -/

namespace World

open Backend.Laws (Keeps Tracks Told keeps_ite)

variable {σ : Type} {b : World σ} {R : σ → σ → Prop} {Used Ended : String → σ → Prop}

/-- The laws of a world: those of its backend, and everything that is read from it is a step of `R`. The
runs that hold locks are used, and so are those that are listed. -/
structure Laws (b : World σ) (R : σ → σ → Prop) (Used Ended : String → σ → Prop) : Prop
    extends b.toBackend.Laws R Used Ended where
  getWorkspace (id : String) (s : σ) : R s (b.getWorkspace id s).2
  listOrganizations (s : σ) : R s (b.listOrganizations s).2
  listWorkspaces (organization : String) (s : σ) : R s (b.listWorkspaces organization s).2
  holders {organization : String} {s s' : σ} {ws : List Workspace} :
    b.listWorkspaces organization s = (.ok ws, s') →
      ∀ w ∈ ws, ∀ run, w.lock = some (.run run) → Used run s'
  listRuns (f : RunFilter) (s : σ) : R s (b.listRuns f s).2
  listed {f : RunFilter} {s s' : σ} {runs : List Run} : b.listRuns f s = (.ok runs, s') →
    ∀ r ∈ runs, f.accepts r = true ∧ Used r.id s'

namespace Laws

variable (h : b.Laws R Used Ended)

include h

/-! ## Rosters -/

section Rosters

variable {t : Roster × σ} {e : Event} {α : Type}

omit h in
/-- All runs that the queues track are used. -/
def Known (Used : String → σ → Prop) (t : Roster × σ) : Prop :=
  ∀ o v q, t.1.queue? o v = some q → Tracks Used (q, t.2)

theorem roster_call {x : ExceptT Error (StateM σ) α} (hx : R t.2 (x t.2).2) :
    Keeps R (Known Used) t (call x t).2 :=
  fun hi => ⟨hx, fun o v q hq run hm => h.used hx (hi o v q hq run hm)⟩

theorem roster_revise {f : Roster → Roster} (hf : ∀ o v q, (f t.1).queue? o v = some q →
    t.1.queue? o v = some q ∨ q.tracked = []) : Keeps R (Known Used) t (revise f t).2 := by
  refine fun hi => ⟨h.refl _, fun o v q hq run hm => ?_⟩
  rcases hf o v q hq with hq | hn
  · exact hi o v q hq run hm
  · rw [hn] at hm
    cases hm

theorem roster_inQueue (o v : String) {x : Queue.Step σ Unit}
    (hx : ∀ q, Keeps R (Tracks Used) (q, t.2) (x (q, t.2)).2) :
    Keeps R (Known Used) t (inQueue o v x t).2 := by
  unfold inQueue
  rcases hq : t.1.queue? o v with _ | q
  · exact h.keeps_refl _ t
  · intro hi
    obtain ⟨hR, hi'⟩ := hx q (hi o v q hq)
    refine ⟨hR, fun p u q' hq' => ?_⟩
    dsimp only at hq'
    rw [Roster.queue?_put (Roster.has_of_queue? hq)] at hq'
    split_ifs at hq' with hpu
    · exact Option.some.inj hq' ▸ hi'
    · exact fun run hm => h.used hR (hi p u q' hq' run hm)

omit h in
theorem queue?_open {r : Roster} {p : String} (ws : Workspace) (hp : r.Has p) {o v : String}
    {q : Queue} (hq : (r.revise p (·.put ws.id { workspace := ws })).queue? o v = some q) :
    r.queue? o v = some q ∨ q.tracked = [] := by
  rw [Roster.queue?_put hp] at hq
  split_ifs at hq with hpu
  · exact .inr (Option.some.inj hq ▸ rfl)
  · exact .inl hq

theorem roster_ensureQueue (ws : Workspace) (t : Roster × σ) :
    Keeps R (Known Used) t (ensureQueue ws t).2 := by
  refine h.roster_revise fun o v q hq => ?_
  rw [← Roster.queue?_ensure t.1 ws.organization o v]
  dsimp only at hq
  split_ifs at hq with hs
  · exact .inl hq
  · exact queue?_open ws (Roster.has_ensure t.1 ws.organization) hq

theorem dispatchRun (run : Run) (he : Told Used Ended e t.2) :
    Keeps R (Known Used) t (b.dispatchRun e run t).2 := by
  have hqueue : ∀ t' : Roster × σ, R t.2 t'.2 → Keeps R (Known Used) t'
      (inQueue run.organization run.workspace (Queue.handle b.toBackend e) t').2 :=
    fun t' hR => h.roster_inQueue _ _ fun q => h.handle (h.told hR he)
  unfold World.dispatchRun
  refine h.keeps_bind (h.roster_revise fun o v q hq => ?_) fun _ t₁ h₁ hR₁ _ => ?_
  · exact .inl (Roster.queue?_ensure t.1 run.organization o v ▸ hq)
  obtain rfl : (t.1.ensure run.organization, t.2) = t₁ := congrArg Prod.snd h₁
  refine h.keeps_bind (h.keeps_refl _ _) fun r t₂ h₂ _ _ => ?_
  obtain rfl : (t.1.ensure run.organization, t.2) = t₂ := congrArg Prod.snd h₂
  refine keeps_ite (fun _ => ?_) fun _ => hqueue _ hR₁
  refine h.keeps_bind (x := attempt _) (h.roster_call (h.getWorkspace _ _)) fun a t₃ h₃ hR₃ _ => ?_
  rcases a with e' | ws
  · refine keeps_ite (fun _ => h.keeps_refl _ t₃) fun _ => ?_
    exact h.keeps_bind (h.keeps_refl _ t₃) fun _ t₄ h₄ _ _ => nomatch h₄
  · obtain rfl : (t.1.ensure run.organization, (b.getWorkspace run.workspace t.2).2) = t₃ :=
      congrArg Prod.snd h₃
    refine h.keeps_bind (h.roster_revise fun o v q hq => ?_) fun _ t₄ _ hR₄ _ => ?_
    · exact queue?_open ws (Roster.has_ensure t.1 run.organization) hq
    · exact hqueue t₄ (h.trans hR₃ hR₄)

/-- **To dispatch an event is a step of `R`.** -/
theorem dispatch (he : Told Used Ended e t.2) : Keeps R (Known Used) t (b.dispatch e t).2 := by
  have hensure (org : Organization) : Keeps R (Known Used) t (revise (·.ensure org.name) t).2 :=
    h.roster_revise fun o v q hq => .inl (Roster.queue?_ensure t.1 org.name o v ▸ hq)
  have hfilter (name : String) :
      Keeps R (Known Used) t (revise (·.filter fun b => b.organization != name) t).2 := by
    exact h.roster_revise fun o v q hq => .inl (Roster.queue?_of_filter (fun o => o != name) hq)
  have hdrop (id : String) : Keeps R (Known Used) t (revise (·.map (·.drop id)) t).2 := by
    exact h.roster_revise fun o v q hq => .inl (Roster.queue?_of_drop hq)
  unfold World.dispatch
  rcases hp : e.payload with org | ws | run | chunk | ⟨relation, id⟩
  · rcases e.type <;> first | exact hensure org | exact h.keeps_refl _ t
  · have hqueue := h.keeps_bind (f := fun _ => inQueue _ _ (Queue.handle b.toBackend e))
      (h.roster_ensureQueue ws t) fun _ t₁ _ hR _ =>
        h.roster_inQueue ws.organization ws.id fun q => h.handle (h.told hR he)
    rcases e.type <;> exact hqueue
  · rcases e.type <;> exact h.dispatchRun run he
  · rcases e.type <;> exact h.keeps_refl _ t
  · rcases e.type <;> first | exact hfilter id | exact hdrop id | exact h.keeps_refl _ t

omit h in
theorem of_call {x : ExceptT Error (StateM σ) α} {a : α} {t' : Roster × σ}
    (hc : call x t = (.ok a, t')) : x t.2 = (.ok a, t'.2) := by
  have h₁ : (x t.2).1 = .ok a := congrArg (fun c => c.1) hc
  have h₂ : (x t.2).2 = t'.2 := congrArg (fun c => c.2.2) hc
  exact Prod.ext h₁ h₂

omit h in
theorem isDone_of_accepts {v : Option String} {r : Run}
    (hr : RunFilter.accepts { workspace := v, statuses := some Scheduler.unfinished } r = true) :
    r.isDone = false := by
  have hs : r.status ∈ Scheduler.unfinished := by
    simpa [RunFilter.accepts] using (Bool.and_eq_true_iff.mp (Bool.and_eq_true_iff.mp hr).1).2
  revert hs
  rw [Run.isDone]
  cases r.status <;> decide

theorem releaseStaleLock (ws : Workspace) (active : Option Run)
    (hw : ∀ run, ws.lock = some (.run run) → Used run t.2) :
    Keeps R (Known Used) t (b.releaseStaleLock ws active t).2 := by
  unfold World.releaseStaleLock
  rcases hl : ws.lock with _ | holder | name
  · exact h.keeps_refl _ t
  swap
  · exact h.keeps_refl _ t
  refine keeps_ite (fun _ => h.keeps_refl _ t) fun _ => ?_
  refine h.keeps_bind (x := attempt _) (h.roster_call (h.getRun holder _)) fun a t₁ h₁ hR _ => ?_
  obtain ⟨rfl, rfl⟩ : (b.getRun holder t.2).1 = a ∧ (t.1, (b.getRun holder t.2).2) = t₁ :=
    ⟨Except.ok.inj (congrArg Prod.fst h₁), congrArg Prod.snd h₁⟩
  have hu := h.used hR (hw holder hl)
  refine keeps_ite (fun hs => ?_) fun _ => h.keeps_refl _ _
  refine h.keeps_bind (x := attempt _) (h.roster_call (h.unlockWorkspace _ ?_)) fun _ t₂ _ _ _ =>
    h.keeps_refl _ t₂
  rcases hg : b.getRun holder t.2 with ⟨e | r, s'⟩
  · rw [hg] at hs hu
    exact h.gone hg hu hs
  · rw [hg] at hs hu
    exact (h.found hg hu).2 hs

theorem seedWorkspace (ws : Workspace) (hw : ∀ run, ws.lock = some (.run run) → Used run t.2) :
    Keeps R (Known Used) t (b.seedWorkspace ws t).2 := by
  unfold World.seedWorkspace
  refine h.keeps_bind (h.roster_call (h.listRuns _ _)) fun runs t₁ h₁ hR₁ _ => ?_
  have hruns : ∀ r ∈ runs, r.isDone = false ∧ Used r.id t₁.2 := fun r hr =>
    (h.listed (of_call h₁) r hr).imp_left isDone_of_accepts
  refine keeps_ite (fun _ => ?_) fun _ => ?_
  · exact h.keeps_bind (h.keeps_refl _ t₁) fun _ t₂ h₂ _ _ => nomatch h₂
  refine h.keeps_bind (h.releaseStaleLock ws _ fun run hl => h.used hR₁ (hw run hl))
    fun _ t₂ _ hR₂ _ => ?_
  refine h.keeps_bind (h.roster_ensureQueue ws t₂) fun _ t₃ _ hR₃ _ => ?_
  refine h.keeps_bind (x := attempt _) (h.roster_inQueue _ _ fun q => h.feed ws fun r hr => ?_)
    fun _ t₄ _ _ _ => h.keeps_refl _ t₄
  exact ⟨(hruns r hr).1, h.used (h.trans hR₂ hR₃) (hruns r hr).2⟩

theorem seedOrganization (org : Organization) (t : Roster × σ) :
    Keeps R (Known Used) t (b.seedOrganization org t).2 := by
  unfold World.seedOrganization
  refine h.keeps_bind (h.roster_call (h.listWorkspaces _ _)) fun ws t₁ h₁ _ _ => ?_
  have hws := h.holders (of_call h₁)
  refine h.keeps_bind (h.roster_revise fun o v q hq => .inl ?_) fun _ t₂ _ hR₂ _ => ?_
  · exact Roster.queue?_ensure t₁.1 org.name o v ▸ Roster.queue?_of_keep hq
  · exact h.keeps_forM fun w hm t' hR => h.seedWorkspace w fun run hl =>
      h.used (h.trans hR₂ hR) (hws w hm run hl)

/-- **To seed is a number of steps of `R`.** -/
theorem seed (t : Roster × σ) : Keeps R (Known Used) t (b.seed t).2 := by
  unfold World.seed
  refine h.keeps_bind (h.roster_call (h.listOrganizations _)) fun orgs t₁ _ _ _ => ?_
  refine h.keeps_bind (h.roster_revise fun o v q hq => .inl ?_) fun _ t₂ _ _ _ => ?_
  · exact Roster.queue?_of_filter (fun o => (orgs.map (·.name)).contains o) hq
  · exact h.keeps_forM fun org _ t' _ => h.seedOrganization org t'

end Rosters

end Laws

end World

end Provision
