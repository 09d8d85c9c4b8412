import Provision.Proofs.Queue.Refresh
import Provision.Proofs.Scheduler.Roster

/-!
# What the scheduler does with an event

* `Scheduler.Good`: the ledger is sound, and every queue fits it.
* `Scheduler.Confined v`: everything stays as it is but what belongs to the workspace `v`. The work of
  one queue is confined to its workspace (`Scheduler.confined_inQueue`).
* `Ledger.Backs`: an event was announced, or loaded when it arrived from another node.
* `Scheduler.Dispatched`: what dispatching an event comes to (`Scheduler.dispatch_dispatched`).
-/

namespace Provision

namespace Ledger

variable {l l' : Ledger} {e : Event}

/-- What an event tells is or was so. The copy of a workspace may be a later one than the type of the
event would make believe. -/
inductive Backs (l : Ledger) (e : Event) : Prop
  | vouched : l.Vouches e → Backs l e
  | workspace (ws : Workspace) : e.payload = .workspace ws →
      l.Vouches (Event.ofWorkspace .workspaceUpdated ws) → Backs l e

theorem Backs.vouches (h : l.Backs e) (hn : ∀ ws : Workspace, e.payload ≠ .workspace ws) :
    l.Vouches e := by
  cases h with
  | vouched h => exact h
  | workspace ws he _ => exact absurd he (hn ws)

theorem Backs.vouches_workspace (h : l.Backs e) {ws : Workspace} (he : e.payload = .workspace ws) :
    l.Vouches (Event.ofWorkspace .workspaceUpdated ws) := by
  cases h with
  | vouched h =>
    rw [Vouches, he] at h
    exact ⟨h.1, (fun ht => by cases ht), h.2.2⟩
  | workspace _ he' h =>
    obtain rfl := Payload.workspace.inj (he.symm.trans he')
    exact h

theorem Grows.backs (hg : l.Grows l') (he : e.type = .organizationDeleted → e ∈ l.announced)
    (h : l.Backs e) : l'.Backs e := by
  cases h with
  | vouched h => exact .vouched (hg.vouches he h)
  | workspace ws hws h => exact .workspace ws hws (hg.vouches (fun ht => by cases ht) h)

end Ledger

namespace Scheduler

open Effect
open Identifier (Issued)

/-- What holds of the scheduler at any time. -/
structure Good (σ : Roster × Ledger) : Prop where
  sound : σ.2.Sound
  fits : ∀ o v q, σ.1.queue? o v = some q → q.Fits o v σ.2

/-- Everything stays as it is but what belongs to a workspace. -/
structure Confined (v : String) (σ σ' : Roster × Ledger) : Prop where
  good : Good σ'
  grows : σ.2.Grows σ'.2
  spares : σ.2.Spares σ'.2
  /-- The queues of other workspaces are the same. -/
  queues : ∀ o u, u ≠ v → σ'.1.queue? o u = σ.1.queue? o u
  /-- Other workspaces are the same. -/
  apart : ∀ u, u ≠ v → σ.2.Apart u σ'.2

/-- Nothing of a workspace in an organization changed, and nothing was created or removed. -/
structure Apart (o u : String) (σ σ' : Roster × Ledger) : Prop where
  queue : σ'.1.queue? o u = σ.1.queue? o u
  ledger : σ.2.Apart u σ'.2
  spares : σ.2.Spares σ'.2

variable {o v u : String} {σ σ' σ'' : Roster × Ledger} {q q₁ : Queue} {w : Workspace} {e : Event}

theorem Good.empty : Good ([], {}) :=
  ⟨.empty, fun _ _ _ h => by cases h⟩

theorem Good.trim (hg : Good σ) {r : Roster}
    (hr : ∀ o v q, r.queue? o v = some q → σ.1.queue? o v = some q) : Good (r, σ.2) :=
  ⟨hg.sound, fun o v q h => hg.fits o v q (hr o v q h)⟩

theorem Apart.refl (o u : String) (σ : Roster × Ledger) : Apart o u σ σ :=
  ⟨rfl, .refl u _, .refl _⟩

theorem Apart.trans (h : Apart o u σ σ') (h' : Apart o u σ' σ'') : Apart o u σ σ'' :=
  ⟨h'.queue.trans h.queue, h.ledger.trans h'.ledger, h.spares.trans h'.spares⟩

theorem Apart.tracked (ha : Apart o v σ σ') : σ'.1.tracked o v = σ.1.tracked o v := by
  rw [Roster.tracked, Roster.tracked, ha.queue]

theorem Apart.unfinishedOf (ha : Apart o v σ σ') :
    σ'.2.store.unfinishedOf v = σ.2.store.unfinishedOf v := by
  rw [Store.unfinishedOf, Store.unfinishedOf, ha.ledger.runs]

theorem Apart.userLocked (ha : Apart o v σ σ') : σ'.2.UserLocked v ↔ σ.2.UserLocked v := by
  rw [Ledger.UserLocked, Ledger.UserLocked, ha.ledger.workspace]

theorem Confined.trans (h : Confined v σ σ') (h' : Confined v σ' σ'') : Confined v σ σ'' :=
  ⟨h'.good, h.grows.trans h'.grows, h.spares.trans h'.spares,
    fun o u hu => (h'.queues o u hu).trans (h.queues o u hu),
    fun u hu => (h.apart u hu).trans (h'.apart u hu)⟩

theorem Confined.of_ne (h : Confined v σ σ') (o : String) (hu : u ≠ v) : Apart o u σ σ' :=
  ⟨h.queues o u hu, h.apart u hu, h.spares⟩

/-! ## The work of one queue -/

theorem inQueue_apply (hq : σ.1.queue? o v = some q) (x : Queue.Step Ledger Unit) :
    inQueue o v x σ =
      ((x (q, σ.2)).1, (σ.1.revise o (·.put v (x (q, σ.2)).2.1), (x (q, σ.2)).2.2)) := by
  unfold inQueue
  rw [hq]

theorem queue?_inQueue (hq : σ.1.queue? o v = some q) (x : Queue.Step Ledger Unit) (p u : String) :
    (inQueue o v x σ).2.1.queue? p u =
      if p = o ∧ u = v then some (x (q, σ.2)).2.1 else σ.1.queue? p u := by
  rw [inQueue_apply hq]
  exact Roster.queue?_put (Roster.has_of_queue? hq) v _ p u

/-- **The work of a queue is confined to its workspace.** -/
theorem confined_inQueue (hg : Good σ) (hq : σ.1.queue? o v = some q) {x : Queue.Step Ledger Unit}
    (hq₁ : q₁.Fits o v σ.2) (hx : Queue.Changes o v (q₁, σ.2) (x (q, σ.2)).2) :
    Confined v σ (inQueue o v x σ).2 := by
  obtain ⟨hs', hgr, hq'⟩ := hx.sound hg.sound hq₁
  have hl : (inQueue o v x σ).2.2 = (x (q, σ.2)).2.2 := by rw [inQueue_apply hq]
  have hput := queue?_inQueue hq x
  refine ⟨⟨hl ▸ hs', fun p u q' h => ?_⟩, hl ▸ hgr, hl ▸ hx.spares hg.sound hq₁,
    fun p u hu => ?_, fun u hu => ?_⟩
  · rw [hput] at h
    rw [hl]
    split_ifs at h with hpu
    · obtain ⟨rfl, rfl⟩ := hpu
      obtain rfl := Option.some.inj h
      exact hq'
    · exact (hg.fits p u q' h).mono hgr
  · rw [hput, if_neg fun h => hu h.2]
  · exact hl ▸ hx.apart hg.sound hq₁ hu

/-! ## Opening a queue -/

/-- There is a queue for a workspace now: the one that was there, or a new one. -/
structure Opened (o v : String) (w : Workspace) (q : Queue) (σ σ₁ : Roster × Ledger) : Prop where
  ledger : σ₁.2 = σ.2
  queue : σ₁.1.queue? o v = some q
  /-- The other queues are the same. -/
  others : ∀ p u, ¬ (p = o ∧ u = v) → σ₁.1.queue? p u = σ.1.queue? p u
  /-- There is a bucket for the organization now. -/
  buckets : ∀ p, σ₁.1.Has p ↔ σ.1.Has p ∨ p = o
  /-- The queue was there or is new. -/
  origin : σ.1.queue? o v = some q ∨ (σ.1.queue? o v = none ∧ q = { workspace := w })

theorem Opened.fits {σ₁ : Roster × Ledger} (h : Opened o v w q σ σ₁) (hg : Good σ) (hw : w.id = v)
    (hi : Issued Workspace.stem σ.2.supply v)
    (hp : ∀ w ∈ σ.2.store.workspaces, w.id = v → w.organization = o) : q.Fits o v σ.2 := by
  rcases h.origin with hq | ⟨-, rfl⟩
  · exact hg.fits o v q hq
  · exact Queue.fits_new hw hi hp

theorem Opened.confined {σ₁ : Roster × Ledger} (h : Opened o v w q σ σ₁) (hg : Good σ)
    (hq : q.Fits o v σ.2) : Confined v σ σ₁ := by
  refine ⟨⟨h.ledger ▸ hg.sound, fun p u q' hq' => ?_⟩, h.ledger ▸ .refl _, h.ledger ▸ .refl _,
    fun p u hu => h.others p u fun hpu => hu hpu.2, fun u _ => h.ledger ▸ .refl u _⟩
  rw [h.ledger]
  by_cases hpu : p = o ∧ u = v
  · obtain ⟨rfl, rfl⟩ := hpu
    obtain rfl := Option.some.inj (h.queue.symm.trans hq')
    exact hq
  · exact hg.fits p u q' (h.others p u hpu ▸ hq')

theorem opened_of_ensure (σ : Roster × Ledger) (o v : String) (w : Workspace) :
    ∃ q, Opened o v w q σ
      (if ((σ.1.ensure o).queue? o v).isSome then σ.1.ensure o
        else (σ.1.ensure o).revise o (·.put v { workspace := w }), σ.2) := by
  have hen : (σ.1.ensure o).queue? o v = σ.1.queue? o v := Roster.queue?_ensure _ _ _ _
  rcases hq : σ.1.queue? o v with _ | q
  · rw [hen, hq]
    refine ⟨_, rfl, ?_, fun p u hpu => ?_, fun p => (Roster.has_put _ v _).trans Roster.has_ensure_iff,
      .inr ⟨hq, rfl⟩⟩
    · exact (Roster.queue?_put (Roster.has_ensure _ _) v _ o v).trans (if_pos ⟨rfl, rfl⟩)
    · refine (Roster.queue?_put (Roster.has_ensure _ _) v _ p u).trans ?_
      rw [if_neg hpu, Roster.queue?_ensure]
  · rw [hen, hq]
    exact ⟨q, rfl, hen.trans hq, fun p u _ => Roster.queue?_ensure _ _ _ _,
      fun p => Roster.has_ensure_iff, .inl hq⟩

/-! ## Events -/

/-- What dispatching an event comes to. -/
inductive Dispatched (e : Event) (σ : Roster × Ledger) : Roster × Ledger → Prop
  /-- Nothing that concerns a stored workspace. -/
  | idle (r : Roster) : (∀ o v q, r.queue? o v = some q → σ.1.queue? o v = some q) →
      (∀ w ∈ σ.2.store.workspaces,
        r.queue? w.organization w.id = σ.1.queue? w.organization w.id ∧ ∀ x : Run,
          e.payload = .run x → x.workspace ≠ w.id) →
      (∀ x : Run, e.payload = .run x → σ.1.queue? x.organization x.workspace = none) →
      (∀ ws : Workspace, e.payload ≠ .workspace ws) → Dispatched e σ (r, σ.2)
  /-- A queue hears of a run. -/
  | run (x : Run) (w : Workspace) (q : Queue) (σ₁ : Roster × Ledger) : e.payload = .run x →
      Opened x.organization x.workspace w q σ σ₁ → w.id = x.workspace →
      (σ.1.queue? x.organization x.workspace = none →
        σ.2.store.workspace? x.workspace = some w) →
      Dispatched e σ (inQueue x.organization x.workspace (Queue.handle Backend.services e) σ₁).2
  /-- A queue sees its workspace. -/
  | workspace (ws : Workspace) (q : Queue) (σ₁ : Roster × Ledger) : e.payload = .workspace ws →
      Opened ws.organization ws.id ws q σ σ₁ →
      Dispatched e σ (inQueue ws.organization ws.id (Queue.handle Backend.services e) σ₁).2

theorem revise_apply (f : Roster → Roster) (σ : Roster × Ledger) :
    revise f σ = (.ok (), (f σ.1, σ.2)) := rfl

theorem roster_apply (σ : Roster × Ledger) : roster σ = (.ok σ.1, σ) := rfl

theorem attempt_call_apply {α : Type} {x : Service α} {res : Except Error α} {l : Ledger}
    (h : x σ.2 = (res, l)) : attempt (call x) σ = (.ok res, (σ.1, l)) := by
  change (Except.ok (x σ.2).1, (σ.1, (x σ.2).2)) = _
  rw [h]

theorem dispatch_run {x : Run} (he : e.payload = .run x) : dispatch e = dispatchRun e x := by
  rcases e with ⟨type, payload, isLocal⟩
  obtain rfl : payload = .run x := he
  cases type <;> rfl

theorem dispatch_workspace {ws : Workspace} (he : e.payload = .workspace ws) :
    dispatch e = (do
      ensureQueue ws
      inQueue ws.organization ws.id (Queue.handle Backend.services e)) := by
  rcases e with ⟨type, payload, isLocal⟩
  obtain rfl : payload = .workspace ws := he
  cases type <;> rfl

/-- An event of a run is handed to a queue, which is opened if need be, unless there is no queue and the
workspace is gone. -/
theorem dispatch_run_cases {x : Run} (he : e.payload = .run x) (σ : Roster × Ledger) :
    (σ.1.queue? x.organization x.workspace = none ∧ σ.2.store.workspace? x.workspace = none ∧
        (dispatch e σ).2 = (σ.1.ensure x.organization, σ.2)) ∨
      ∃ w q σ₁, Opened x.organization x.workspace w q σ σ₁ ∧
        (σ.1.queue? x.organization x.workspace = some q ∧ w = q.workspace ∨
          σ.1.queue? x.organization x.workspace = none ∧ σ.2.store.workspace? x.workspace = some w) ∧
        (dispatch e σ).2 =
          (inQueue x.organization x.workspace (Queue.handle Backend.services e) σ₁).2 := by
  rw [dispatch_run he]
  unfold dispatchRun
  rw [bind_ok (revise_apply _ σ), bind_ok (roster_apply _)]
  have hen : (σ.1.ensure x.organization).queue? x.organization x.workspace =
      σ.1.queue? x.organization x.workspace := Roster.queue?_ensure _ _ _ _
  rcases hq : σ.1.queue? x.organization x.workspace with _ | q
  · dsimp only
    rw [hen, hq, if_pos Option.isNone_none]
    have hget := Service.getWorkspace_apply x.workspace σ.2
    rcases hw : σ.2.store.workspace? x.workspace with _ | w
    · rw [hw] at hget
      have hc := attempt_call_apply (σ := (σ.1.ensure x.organization, σ.2)) hget
      rw [bind_ok hc]
      exact .inl ⟨rfl, rfl, rfl⟩
    · rw [hw] at hget
      have hc := attempt_call_apply (σ := (σ.1.ensure x.organization, σ.2)) hget
      rw [bind_ok hc]
      obtain ⟨q, hop⟩ := opened_of_ensure σ x.organization x.workspace w
      rw [hen, hq, if_neg (by simp)] at hop
      dsimp only
      rw [bind_ok (revise_apply _ _), Store.workspace?_id hw]
      exact .inr ⟨w, q, _, hop, .inr ⟨rfl, rfl⟩, rfl⟩
  · dsimp only
    obtain ⟨q', hop⟩ := opened_of_ensure σ x.organization x.workspace q.workspace
    rw [hen, hq, if_pos (by simp)] at hop
    obtain rfl := Option.some.inj (hop.queue.symm.trans (hen.trans hq))
    rw [hen, hq, if_neg (by simp)]
    exact .inr ⟨_, _, _, hop, .inl ⟨rfl, rfl⟩, rfl⟩

theorem dispatched_run (hg : Good σ) {x : Run} (he : e.payload = .run x) :
    Dispatched e σ (dispatch e σ).2 := by
  obtain ⟨hq, hw, hd⟩ | ⟨w, q, σ₁, hop, ho, hd⟩ := dispatch_run_cases he σ
  · have hx : ∀ {y : Run}, e.payload = .run y → y = x := fun hy => Payload.run.inj (hy.symm.trans he)
    rw [hd]
    refine .idle _ (fun o v q h => Roster.queue?_ensure σ.1 _ o v ▸ h) (fun w hwm => ?_)
      (fun y hy => hx hy ▸ hq) fun ws hws => by cases he.symm.trans hws
    refine ⟨Roster.queue?_ensure _ _ _ _, fun y hy => ?_⟩
    exact hx hy ▸ fun h => Keyed.find?_eq_none_iff.mp hw w hwm h.symm
  · rw [hd]
    obtain ⟨hq, rfl⟩ | ⟨hq, hw⟩ := ho
    · exact .run x _ q σ₁ he hop (hg.fits _ _ q hq).id fun h => by cases hq.symm.trans h
    · exact .run x w q σ₁ he hop (Store.workspace?_id hw) fun _ => hw

theorem dispatched_workspace {ws : Workspace} (he : e.payload = .workspace ws) :
    Dispatched e σ (dispatch e σ).2 := by
  obtain ⟨q, hop⟩ := opened_of_ensure σ ws.organization ws.id ws
  rw [dispatch_workspace he]
  exact .workspace ws q _ he hop

theorem dispatched_organizationDeleted (hg : Good σ) {relation name : String} {isLocal : Bool}
    (hv : σ.2.Vouches ⟨.organizationDeleted, .deleted relation name, isLocal⟩) :
    Dispatched ⟨.organizationDeleted, .deleted relation name, isLocal⟩ σ
      (σ.1.filter fun b => b.organization != name, σ.2) := by
  refine .idle _ (fun o v q h => ?_) (fun w hw => ⟨?_, fun x hx => by cases hx⟩)
    (fun x hx => by cases hx) fun ws h => by cases h
  · exact Roster.queue?_of_filter (fun p => p != name) h
  · obtain ⟨o, ho, hn⟩ := hg.sound.ordered.seat w hw
    rw [Roster.queue?_filter σ.1 fun p => p != name, if_pos]
    exact bne_iff_ne.mpr (hn ▸ (hv.1 rfl).2 o ho)

theorem dispatched_workspaceDeleted {relation id : String} {isLocal : Bool}
    (hv : σ.2.Vouches ⟨.workspaceDeleted, .deleted relation id, isLocal⟩) :
    Dispatched ⟨.workspaceDeleted, .deleted relation id, isLocal⟩ σ (σ.1.map (·.drop id), σ.2) := by
  refine .idle _ (fun o v q h => ?_) (fun w hw => ⟨?_, fun x hx => by cases hx⟩)
    (fun x hx => by cases hx) fun ws h => by cases h
  · exact Roster.queue?_of_drop h
  · rw [Roster.queue?_drop, if_neg ((hv.2 rfl).2 w hw)]

/-- **What dispatching an event comes to.** -/
theorem dispatch_dispatched (hg : Good σ) (hb : σ.2.Backs e) :
    Dispatched e σ (dispatch e σ).2 := by
  rcases e with ⟨type, payload, isLocal⟩
  cases payload with
  | run x => exact dispatched_run hg rfl
  | workspace ws => exact dispatched_workspace rfl
  | organization org =>
    have hnone : Dispatched ⟨type, .organization org, isLocal⟩ σ σ :=
      .idle _ (fun _ _ _ h => h) (fun w _ => ⟨rfl, fun x hx => by cases hx⟩)
        (fun x hx => by cases hx) fun ws h => by cases h
    cases type with
    | organizationCreated =>
      refine .idle _ (fun o v q h => Roster.queue?_ensure σ.1 org.name o v ▸ h) (fun w _ => ?_)
        (fun x hx => by cases hx) fun ws h => by cases h
      exact ⟨Roster.queue?_ensure _ _ _ _, fun x hx => by cases hx⟩
    | _ => exact hnone
  | chunk c =>
    have hnone : Dispatched ⟨type, .chunk c, isLocal⟩ σ σ :=
      .idle _ (fun _ _ _ h => h) (fun w _ => ⟨rfl, fun x hx => by cases hx⟩)
        (fun x hx => by cases hx) fun ws h => by cases h
    cases type with
    | _ => exact hnone
  | deleted relation name =>
    have hv := hb.vouches fun ws h => by cases h
    have hnone : Dispatched ⟨type, .deleted relation name, isLocal⟩ σ σ :=
      .idle _ (fun _ _ _ h => h) (fun w _ => ⟨rfl, fun x hx => by cases hx⟩)
        (fun x hx => by cases hx) fun ws h => by cases h
    cases type with
    | organizationDeleted => exact dispatched_organizationDeleted hg hv
    | workspaceDeleted => exact dispatched_workspaceDeleted hv
    | _ => exact hnone

end Scheduler

end Provision
