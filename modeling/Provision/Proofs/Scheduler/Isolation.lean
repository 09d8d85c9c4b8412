import Provision.Proofs.Queue.Alike
import Provision.Proofs.Scheduler.Turns

/-!
# Workspaces are isolated

An event is handed to the queue of one workspace, which is made if need be. What comes of it depends on
this workspace and its runs alone, and changes nothing else.

* `Scheduler.dispatch_handed`: to which queue an event is handed, whatever the scheduler knows.
* `Scheduler.Spared`: nothing of a workspace changed. `Scheduler.Alike`: two schedulers know the same
  of a workspace, and the same of it is stored, but for times.
* `Scheduler.Alike.dispatched`: an event keeps two schedulers alike.
* **`Scheduler.dispatch_isolated`**: events about different workspaces do not meet.
-/

namespace Provision

/-- The store without the times in the logs of its runs. -/
def Store.untimed (s : Store) : Store :=
  { s with runs := s.runs.map Run.untimed }

/-- The event is handed to the queue of a workspace in an organization. -/
def Event.Addresses (e : Event) (o v : String) : Prop :=
  match e.payload with
  | .run x => x.organization = o ∧ x.workspace = v
  | .workspace ws => ws.organization = o ∧ ws.id = v
  | _ => False

/-- Two ledgers differ in times only, if nothing was created or removed in either and they tell the same of
every workspace and of its runs. -/
theorem Ledger.untimed_of_agrees {l l₁ l₂ : Ledger} (ho : l.store.Ordered l.supply) (hf₁ : l.Frame l₁)
    (hf₂ : l.Frame l₂) (h : ∀ v, l₁.Agrees (· = v) (l.Within v) l₂) :
    l₂.store.untimed = l₁.store.untimed := by
  have hws : l₂.store.workspaces.map id = l₁.store.workspaces.map id :=
    Keyed.map_eq_of_find? (hf₁.workspaces ▸ ho.workspaces) (hf₂.workspaces.trans hf₁.workspaces.symm)
      fun v => congrArg _ ((h v).workspace v rfl)
  have hruns : l₂.store.runs.map Run.untimed = l₁.store.runs.map Run.untimed := by
    refine Keyed.map_eq_of_find? (hf₁.runs ▸ ho.runs) (hf₂.runs.trans hf₁.runs.symm) fun run => ?_
    rcases hr : l.store.run? run with _ | r
    · have h₁ := hf₁.speculative run
      have h₂ := hf₂.speculative run
      rw [hr, Option.map_none, Option.map_eq_none_iff] at h₁ h₂
      exact congrArg _ (h₂.trans h₁.symm)
    · refine (h r.workspace).run run fun x hx hid => ?_
      rw [ho.run_eq hx (Store.run?_mem hr) (hid.trans (Store.run?_id hr).symm)]
  rw [List.map_id, List.map_id] at hws
  rw [Store.untimed, Store.untimed, hws, hruns, hf₁.organizations, hf₂.organizations, hf₁.chunks,
    hf₂.chunks, hf₁.lastChunk, hf₂.lastChunk]

section Concerns

variable {e : Event} {v : String} (h : e.Concerns v)

include h

theorem Event.Concerns.cases : (∃ ws : Workspace, e.payload = .workspace ws ∧ ws.id = v) ∨
    ∃ x : Run, e.payload = .run x ∧ x.workspace = v := by
  unfold Event.Concerns at h
  split at h
  · next x hx => exact .inr ⟨x, hx, h⟩
  · next ws hws => exact .inl ⟨ws, hws, h⟩
  · exact h.elim

theorem Event.Concerns.addresses : ∃ o, e.Addresses o v := by
  unfold Event.Addresses
  rcases h.cases with ⟨ws, he, hid⟩ | ⟨x, he, hv⟩
  · rw [he]
    exact ⟨ws.organization, rfl, hid⟩
  · rw [he]
    exact ⟨x.organization, rfl, hv⟩

end Concerns

namespace Scheduler

variable {o p u v : String} {e : Event} {σ σ' σ'' : Roster × Ledger}

/-! ## The queue that is handed an event -/

/-- The queue that is handed an event: the one that is there, or else a new one. -/
def hearer (e : Event) (o v : String) (σ : Roster × Ledger) : Option Queue :=
  (σ.1.queue? o v).or <| match e.payload with
    | .workspace ws => some { workspace := ws }
    | _ => (σ.2.store.workspace? v).map fun ws => { workspace := ws }

/-- A scheduler hands an event to a queue, unless there is none. -/
structure Handed (e : Event) (o v : String) (σ σ' : Roster × Ledger) : Prop where
  of_none : hearer e o v σ = none → σ'.2 = σ.2 ∧ ∀ p u, σ'.1.queue? p u = σ.1.queue? p u
  of_some {q : Queue} : hearer e o v σ = some q →
    σ'.2 = (Queue.handle Backend.services e (q, σ.2)).2.2 ∧ ∀ p u, σ'.1.queue? p u =
      if p = o ∧ u = v then some (Queue.handle Backend.services e (q, σ.2)).2.1 else σ.1.queue? p u
  /-- There is a bucket for the organization now. -/
  buckets : ∀ p, σ'.1.Has p ↔ σ.1.Has p ∨ p = o

theorem Opened.handed {w : Workspace} {q : Queue} {σ₁ : Roster × Ledger} (h : Opened o v w q σ σ₁)
    (hq : hearer e o v σ = some q) :
    Handed e o v σ (inQueue o v (Queue.handle Backend.services e) σ₁).2 := by
  obtain ⟨r₁, l⟩ := σ₁
  obtain rfl : l = σ.2 := h.ledger
  refine ⟨fun hn => (by cases hn.symm.trans hq), fun {q'} hq' => ?_, fun p => ?_⟩
  swap
  · rw [inQueue_apply h.queue]
    exact (Roster.has_put r₁ v _).trans (h.buckets p)
  obtain rfl := Option.some.inj (hq.symm.trans hq')
  refine ⟨by rw [inQueue_apply h.queue], fun p u => ?_⟩
  rw [queue?_inQueue h.queue]
  split_ifs with hpu
  · rfl
  · exact h.others p u hpu

/-- **An event is handed to one queue.** -/
theorem dispatch_handed (h : e.Addresses o v) (σ : Roster × Ledger) :
    Handed e o v σ (dispatch e σ).2 := by
  unfold Event.Addresses at h
  split at h
  · next x hx =>
    obtain ⟨rfl, rfl⟩ := h
    obtain ⟨hq, hw, hd⟩ | ⟨w, q, σ₁, hop, ho, hd⟩ := dispatch_run_cases hx σ
    · rw [hd]
      refine ⟨fun _ => ⟨rfl, fun p u => Roster.queue?_ensure _ _ _ _⟩, fun {q} hs => ?_,
        fun p => Roster.has_ensure_iff⟩
      rw [hearer, hq, hx, hw] at hs
      cases hs
    · rw [hd]
      refine hop.handed ?_
      obtain ⟨hq, -⟩ | ⟨hq, hw⟩ := ho
      · rw [hearer, hq, Option.some_or]
      · rw [hearer, hq, hx, hw]
        obtain hq' | ⟨-, rfl⟩ := hop.origin
        · cases hq.symm.trans hq'
        · rfl
  · next ws hws =>
    obtain ⟨rfl, rfl⟩ := h
    obtain ⟨q, hop⟩ := opened_of_ensure σ ws.organization ws.id ws
    rw [dispatch_workspace hws]
    refine hop.handed ?_
    obtain hq | ⟨hq, rfl⟩ := hop.origin
    · rw [hearer, hq, Option.some_or]
    · rw [hearer, hq, hws]
      rfl
  · exact h.elim

theorem Handed.queue?_of_ne (h : Handed e o v σ σ') (hu : u ≠ v) (p : String) :
    σ'.1.queue? p u = σ.1.queue? p u := by
  rcases hs : hearer e o v σ with _ | q
  · exact (h.of_none hs).2 p u
  · rw [(h.of_some hs).2, if_neg fun h => hu h.2]

/-! ## Other workspaces -/

/-- Nothing of a workspace changed. -/
structure Spared (v : String) (σ σ' : Roster × Ledger) : Prop where
  queues : ∀ o, σ'.1.queue? o v = σ.1.queue? o v
  workspace : σ'.2.store.workspace? v = σ.2.store.workspace? v
  runs : σ'.2.store.runsOf v = σ.2.store.runsOf v

/-- **An event about a workspace changes nothing of other workspaces.** -/
theorem Reachable.spared (h : Reachable σ) (he : σ.2.Recalls e) (hv : e.Concerns v) (hu : u ≠ v) :
    Spared u σ (dispatch e σ).2 := by
  obtain ⟨r, l⟩ := σ
  obtain ⟨o, ha⟩ := hv.addresses
  have hg := h.good
  have hp : (∃ ws, e.payload = .workspace ws) ∨ ∃ x, e.payload = .run x :=
    hv.cases.imp (fun ⟨ws, hws, _⟩ => ⟨ws, hws⟩) fun ⟨x, hx, _⟩ => ⟨x, hx⟩
  have hstore := Ledger.store_of_quiet (dispatch_quiet hg e).2.2
  have hap : l.quiet.store.workspace? u = (dispatch e (r, l.quiet)).2.2.store.workspace? u ∧
      l.quiet.store.runsOf u = (dispatch e (r, l.quiet)).2.2.store.runsOf u := by
    rcases dispatch_heard hg (recalls_backs h.later he hp) with hi | ⟨o', v', q, q', hh⟩
    · rw [hi.ledger]
      exact ⟨rfl, rfl⟩
    · obtain rfl := hh.concerns.unique hv
      have hap := hh.confined.apart u hu
      exact ⟨hap.workspace.symm, hap.runs.symm⟩
  refine ⟨(dispatch_handed ha _).queue?_of_ne hu, ?_, ?_⟩
  · rw [hstore]
    exact hap.1.symm
  · rw [hstore]
    exact hap.2.symm

/-! ## The same event in two schedulers -/

/-- The scheduler and the ledger after an event is dispatched at a reading of the clock. -/
def dispatchAt (now : Instant) (e : Event) (σ : Roster × Ledger) : Roster × Ledger :=
  (dispatch e (σ.1, { σ.2 with clock := now })).2

/-- Two schedulers have the same queues for a workspace, and their ledgers tell the same of the workspace
and of some runs, but for times. -/
structure Alike (v : String) (K : String → Prop) (σ σ' : Roster × Ledger) : Prop where
  queues : ∀ o, σ'.1.queue? o v = σ.1.queue? o v
  ledger : σ.2.Agrees (· = v) K σ'.2

namespace Alike

variable {K K' : String → Prop}

theorem symm (h : Alike v K σ σ') : Alike v K σ' σ :=
  ⟨fun o => (h.queues o).symm, h.ledger.symm⟩

theorem trans (h : Alike v K σ σ') (h' : Alike v K σ' σ'') : Alike v K σ σ'' :=
  ⟨fun o => (h'.queues o).trans (h.queues o), h.ledger.trans h'.ledger⟩

theorem mono (h : Alike v K σ σ') (hk : ∀ run, K' run → K run) : Alike v K' σ σ' :=
  ⟨h.queues, h.ledger.mono hk⟩

theorem hearer_eq (h : Alike v K σ σ') (e : Event) (o : String) :
    hearer e o v σ' = hearer e o v σ := by
  rw [hearer, hearer, h.queues, h.ledger.workspace v rfl]

/-- **What an event does to a workspace** depends on nothing else. -/
theorem dispatched (h : Alike v K σ σ') (ha : e.Addresses o v)
    (hq : ∀ q, hearer e o v σ = some q → q.workspace.id = v ∧ ∀ run ∈ q.tracked, K run)
    (he : ∀ x : Run, e.payload = .run x → K x.id) (now now' : Instant) :
    Alike v K (dispatchAt now e σ) (dispatchAt now' e σ') := by
  have hd := dispatch_handed ha (σ.1, { σ.2 with clock := now })
  have hd' := dispatch_handed ha (σ'.1, { σ'.2 with clock := now' })
  have hhear : hearer e o v (σ'.1, { σ'.2 with clock := now' }) =
      hearer e o v (σ.1, { σ.2 with clock := now }) := h.hearer_eq e o
  have htick := h.ledger.tick now now'
  rcases hs : hearer e o v (σ.1, { σ.2 with clock := now }) with _ | q
  · obtain ⟨hl, hqs⟩ := hd.of_none hs
    obtain ⟨hl', hqs'⟩ := hd'.of_none (hhear.trans hs)
    refine ⟨fun p => (hqs' p v).trans ((h.queues p).trans (hqs p v).symm), ?_⟩
    rw [dispatchAt, dispatchAt, hl, hl']
    exact htick
  · obtain ⟨hl, hqs⟩ := hd.of_some hs
    obtain ⟨hl', hqs'⟩ := hd'.of_some (hhear.trans hs)
    obtain ⟨hid, htr⟩ := hq q hs
    -- The queue is the same, so it does the same.
    have hstep := (Backend.services_agree (V := (· = v)) (K := K) rfl).handle (e := e)
      (⟨rfl, hid, htr, htick⟩ :
        Queue.Paired _ v K (q, { σ.2 with clock := now }) (q, { σ'.2 with clock := now' }))
      fun x hx _ => ⟨fun _ => he x hx, fun _ => he x hx⟩
    have hpair := (hstep.imp (fun _ ⟨_, _, _, _, hd⟩ => hd) fun _ _ _ _ => trivial).unstopped.2
    refine ⟨fun p => ?_, ?_⟩
    · rw [dispatchAt, dispatchAt, hqs, hqs', hpair.queue]
      split_ifs
      · rfl
      · exact h.queues p
    · rw [dispatchAt, dispatchAt, hl, hl']
      exact hpair.state

end Alike

/-! ## Two events about different workspaces -/

variable {e' : Event} {w : String} (now now' : Instant)

theorem dispatchAt_frame (e : Event) (σ : Roster × Ledger) : σ.2.Frame (dispatchAt now e σ).2 :=
  (Ledger.Frame.tick σ.2 now).trans (.of_moves (dispatch_moves e (σ.1, { σ.2 with clock := now })))

theorem dispatchAt_later (e : Event) (σ : Roster × Ledger) : σ.2.Later (dispatchAt now e σ).2 :=
  (Ledger.Later.deed (.tick now) σ.2).trans
    (Ledger.Later.of_moves (dispatch_moves e (σ.1, { σ.2 with clock := now })))

theorem has_dispatchAt (ha : e.Addresses o v) : (dispatchAt now e σ).1.Has p ↔ σ.1.Has p ∨ p = o :=
  (dispatch_handed ha (σ.1, { σ.2 with clock := now })).buckets p

theorem Reachable.tick (h : Reachable σ) : Reachable (σ.1, { σ.2 with clock := now }) :=
  h.tail (.deed (.tick now))

theorem Reachable.dispatched (h : Reachable σ) (he : σ.2.Recalls e) : Reachable (dispatchAt now e σ) :=
  (h.tick now).tail (.dispatch e (he.tick now))

theorem within_dispatchAt (h : Reachable σ) (e : Event) {run : String} (hr : σ.2.Within v run) :
    (dispatchAt now e σ).2.Within v run := by
  rintro r' hr' rfl
  have hm : r'.id ∈ (dispatchAt now e σ).2.store.runs.map Run.id := List.mem_map_of_mem hr'
  rw [(dispatchAt_frame now e σ).runs] at hm
  obtain ⟨x, hx, hid⟩ := List.mem_map.mp hm
  obtain ⟨r, hr₀, hp⟩ := (dispatchAt_later now e σ).run hr' (hid ▸ h.ordered.issuedRuns x hx)
  exact hp.workspace.trans (hr r hr₀ hp.id.symm)

theorem Reachable.alike_aside (h : Reachable σ) (he : σ.2.Recalls e) (hv : e.Concerns v) (hu : u ≠ v) :
    Alike u (σ.2.Within u) σ (dispatchAt now e σ) := by
  have hun := (h.tick now).spared (he.tick now) hv hu
  have hf := dispatchAt_frame now e σ
  have ho' := (h.dispatched now he).ordered
  refine ⟨hun.queues, fun x hx => hx ▸ hun.workspace, fun run hrun => congrArg _ ?_⟩
  rcases hr : σ.2.store.run? run with _ | r
  · have hn := hf.speculative run
    rw [hr, Option.map_none, Option.map_eq_none_iff] at hn
    exact hn
  · have hm : r ∈ σ.2.store.runsOf u :=
      Store.mem_runsOf.mpr ⟨Store.run?_mem hr, hrun r (Store.run?_mem hr) (Store.run?_id hr)⟩
    have hm' : r ∈ (dispatchAt now e σ).2.store.runsOf u := hun.runs ▸ hm
    exact ho'.run?_eq_some_iff.mpr ⟨(Store.mem_runsOf.mp hm').1, Store.run?_id hr⟩

theorem Reachable.hearer_within (h : Reachable σ) (ha : e.Addresses o v) {q : Queue}
    (hq : hearer e o v σ = some q) :
    q.workspace.id = v ∧ ∀ run ∈ q.tracked, σ.2.Within v run := by
  rcases hs : σ.1.queue? o v with _ | p
  · have hnew : ∃ ws : Workspace, ws.id = v ∧ q = { workspace := ws } := by
      rw [hearer, hs, Option.none_or] at hq
      unfold Event.Addresses at ha
      split at hq
      · next ws hws =>
        rw [hws] at ha
        exact ⟨ws, ha.2, (Option.some.inj hq).symm⟩
      · obtain ⟨ws, hws, rfl⟩ := Option.map_eq_some_iff.mp hq
        exact ⟨ws, Store.workspace?_id hws, rfl⟩
    obtain ⟨ws, hid, rfl⟩ := hnew
    exact ⟨hid, fun run hrun => by cases hrun⟩
  · rw [hearer, hs, Option.some_or] at hq
    obtain rfl := Option.some.inj hq
    have hf := h.good.fits o v p hs
    exact ⟨hf.id, fun run hrun r hr hid => ((hf.eligible run hrun).2 r hr hid).1⟩

/-- What an event about a workspace does to it, whether another event comes before it or not. -/
theorem Reachable.alike_about (h : Reachable σ) (he : σ.2.Recalls e) (hv : e.Concerns v)
    (hx : Alike v (σ.2.Within v) σ σ') :
    Alike v (σ.2.Within v) (dispatchAt now e σ) (dispatchAt now' e σ') := by
  obtain ⟨o, ha⟩ := hv.addresses
  refine hx.dispatched ha (fun q hq => h.hearer_within ha hq) (fun x hx r hr hid => ?_) now now'
  obtain ⟨-, -, -, hp⟩ := he.run h.later hx
  rw [Event.Concerns, hx] at hv
  exact (hp r hr hid).workspace.trans hv

section Two

variable (h : Reachable σ) (he : σ.2.Recalls e) (hv : e.Concerns v) (he' : σ.2.Recalls e')
  (hw : e'.Concerns w) (hne : v ≠ w) (s s' t t' : Instant)

include h he hv he' hw hne

theorem alike_first : Alike v (σ.2.Within v) (dispatchAt t' e' (dispatchAt t e σ))
    (dispatchAt s e (dispatchAt s' e' σ)) := by
  have h₁ := (h.dispatched t he).alike_aside t' (he'.later (dispatchAt_later t e σ)) hw hne
  have h₂ := h.alike_about t s he hv (h.alike_aside s' he' hw hne)
  exact (h₁.mono fun run => within_dispatchAt t h e).symm.trans h₂

omit hne in
theorem alike_neither {u : String} (hu : u ≠ v) (hu' : u ≠ w) :
    Alike u (σ.2.Within u) σ (dispatchAt t' e' (dispatchAt t e σ)) :=
  (h.alike_aside t he hv hu).trans
    (((h.dispatched t he).alike_aside t' (he'.later (dispatchAt_later t e σ)) hw hu').mono
      fun _ => within_dispatchAt t h e)

/-- **Events about different workspaces may change places**: every workspace comes to the same. -/
theorem alike_swapped (u : String) :
    Alike u (σ.2.Within u) (dispatchAt t' e' (dispatchAt t e σ))
      (dispatchAt s e (dispatchAt s' e' σ)) := by
  by_cases hu : u = v
  · exact hu ▸ alike_first h he hv he' hw hne s s' t t'
  by_cases hu' : u = w
  · exact hu' ▸ (alike_first h he' hw he hv hne.symm t' t s' s).symm
  · exact (alike_neither h he hv he' hw t t' hu hu').symm.trans
      (alike_neither h he' hw he hv s' s hu' hu)

end Two

/-- **Workspaces are isolated.** An event about a workspace, or about a run of it, changes nothing of any
other workspace, however late it is dispatched. Two such events about different workspaces may be
dispatched in either order: the queues come to be the same, and what is stored differs in times only. -/
theorem dispatch_isolated (h : Reachable σ) (he : σ.2.Recalls e) (hv : e.Concerns v) :
    (∀ now u, u ≠ v → Spared u σ (dispatchAt now e σ)) ∧
      ∀ e' w, σ.2.Recalls e' → e'.Concerns w → v ≠ w → ∀ s s' t t',
        let σ₁ := dispatchAt t' e' (dispatchAt t e σ)
        let σ₂ := dispatchAt s e (dispatchAt s' e' σ)
        (∀ o u, σ₂.1.queue? o u = σ₁.1.queue? o u) ∧ (∀ o, σ₂.1.Has o ↔ σ₁.1.Has o) ∧
          σ₂.2.store.untimed = σ₁.2.store.untimed := by
  refine ⟨fun now u hu => ?_, fun e' w he' hw hne s s' t t' => ?_⟩
  · have hun := (h.tick now).spared (he.tick now) hv hu
    exact ⟨hun.queues, hun.workspace, hun.runs⟩
  · have halike := alike_swapped h he hv he' hw hne s s' t t'
    refine ⟨fun o u => (halike u).queues o, fun o => ?_, ?_⟩
    · obtain ⟨p, ha⟩ := hv.addresses
      obtain ⟨p', ha'⟩ := hw.addresses
      rw [has_dispatchAt _ ha, has_dispatchAt _ ha', has_dispatchAt _ ha', has_dispatchAt _ ha,
        or_right_comm]
    · exact Ledger.untimed_of_agrees h.ordered
        ((dispatchAt_frame t e σ).trans (dispatchAt_frame t' e' _))
        ((dispatchAt_frame s' e' σ).trans (dispatchAt_frame s e _)) fun u => (halike u).ledger

/-- The first runs of two workspaces are admitted, whichever is heard of first. -/
theorem dispatch_isolated_twoRuns : ∃ l : Ledger, ∃ e ∈ l.announced, ∃ e' ∈ l.announced,
    ∃ r ∈ l.store.runs, ∃ r' ∈ l.store.runs, e.payload = .run r ∧ e'.payload = .run r' ∧
      r.workspace ≠ r'.workspace ∧
      let σ₁ := dispatchAt ⟨2, 0⟩ e' (dispatchAt ⟨1, 0⟩ e ([], l))
      let σ₂ := dispatchAt ⟨2, 0⟩ e (dispatchAt ⟨1, 0⟩ e' ([], l))
      σ₁.2.store.runs.map (·.status) = [.planQueued, .planQueued] ∧ σ₂.2.store ≠ σ₁.2.store ∧
        σ₂.2.store.untimed = σ₁.2.store.untimed := by
  let l : Ledger := ({} : Ledger).after [
    .createOrganization "acme",
    .createWorkspace { name := "prod", organization := "acme" },
    .createWorkspace { name := "test", organization := "acme" },
    .createRun { workspace := Identifier.fresh Workspace.stem 0 },
    .createRun { workspace := Identifier.fresh Workspace.stem 1 }]
  obtain ⟨e, he, e', he', r, hr, r', hr', hp, hp', hne, hst, hst'⟩ :
      ∃ e ∈ l.announced, ∃ e' ∈ l.announced, ∃ r ∈ l.store.runs, ∃ r' ∈ l.store.runs,
        e.payload = .run r ∧ e'.payload = .run r' ∧ r.workspace ≠ r'.workspace ∧
        (dispatchAt ⟨2, 0⟩ e' (dispatchAt ⟨1, 0⟩ e ([], l))).2.store.runs.map (·.status) =
          [.planQueued, .planQueued] ∧
        (dispatchAt ⟨2, 0⟩ e (dispatchAt ⟨1, 0⟩ e' ([], l))).2.store ≠
          (dispatchAt ⟨2, 0⟩ e' (dispatchAt ⟨1, 0⟩ e ([], l))).2.store := by
    decide +kernel
  have hl : Reachable ([], l) := Reachable.after (r := []) (l := {}) .refl
  have hsame := (dispatch_isolated hl (.announced he) (Event.concerns_of_run hp rfl)).2 e' r'.workspace
    (.announced he') (Event.concerns_of_run hp' rfl) hne ⟨2, 0⟩ ⟨1, 0⟩ ⟨1, 0⟩ ⟨2, 0⟩
  exact ⟨l, e, he, e', he', r, hr, r', hr', hp, hp', hne, hst, hst', hsame.2.2⟩

end Scheduler

end Provision
