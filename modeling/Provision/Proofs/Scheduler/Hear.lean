import Provision.Proofs.Scheduler.Dispatch

/-!
# Events and queues

An event either concerns no stored workspace or is heard by the queue of one.

* `Scheduler.Ignored`: nothing happens to what is stored.
* `Scheduler.Heard`: a queue, which is made if there is none, reacts to the event.
* `Scheduler.dispatch_heard`: there are no other cases.
-/

namespace Provision

namespace Scheduler

open Effect
open Queue (Changes Reacts Waits hear)

variable {o v : String} {σ σ₁ σ' : Roster × Ledger} {q q' : Queue} {e : Event} {w : Workspace}

/-- The event has no effect on what is stored and the queues for it. -/
structure Ignored (e : Event) (σ σ' : Roster × Ledger) : Prop where
  good : Good σ'
  ledger : σ'.2 = σ.2
  /-- The queues of stored workspaces are the same. -/
  queues : ∀ w ∈ σ.2.store.workspaces,
    σ'.1.queue? w.organization w.id = σ.1.queue? w.organization w.id
  /-- The event is about none of them. -/
  aside : ∀ w ∈ σ.2.store.workspaces, ¬ e.Concerns w.id

/-- The queue of a workspace hears an event: it knows `q` before it reacts and `q'` after it. -/
structure Heard (e : Event) (o v : String) (q q' : Queue) (σ σ' : Roster × Ledger) : Prop where
  /-- The event is about the workspace. -/
  concerns : e.Concerns v
  /-- The current run is the one it was; a queue that was made has none. -/
  current : q.current = (σ.1.queue? o v).bind (·.current)
  /-- So are the tracked runs. -/
  tracked : q.tracked = σ.1.tracked o v
  /-- The copy of the workspace is the one it was, or that of the event, or what is stored. -/
  copy : (∃ p, σ.1.queue? o v = some p ∧ q.workspace = p.workspace ∧ ¬ e.Unlocks v) ∨
    e.payload = .workspace q.workspace ∨ σ.2.store.workspace? v = some q.workspace
  fits : q.Fits o v σ.2
  reacts : Reacts o v (q, σ.2) (q', σ'.2)
  heard : q'.tracked = hear v q.tracked e
  /-- The current run is tried when the lock is open. -/
  tried : e.Unlocks v → Waits v (q', σ'.2)
  /-- The plan of a speculative run is queued. -/
  launched : ∀ x : Run, e.payload = .run x → x.speculative = true → x.status = .pending →
    ∀ r ∈ σ'.2.store.runs, r.id = x.id → r.status ≠ .pending
  queue : σ'.1.queue? o v = some q'
  confined : Confined v σ σ'

theorem Opened.tracked (h : Opened o v w q σ σ₁) :
    q.current = (σ.1.queue? o v).bind (·.current) ∧
      q.tracked = σ.1.tracked o v := by
  unfold Roster.tracked
  rcases h.origin with hq | ⟨hq, rfl⟩
  · rw [hq]
    exact ⟨rfl, rfl⟩
  · rw [hq]
    exact ⟨rfl, rfl⟩

theorem Opened.react {q₀ : Queue} {f : Queue.Step Ledger Unit} (hop : Opened o v w q σ σ₁)
    (hg : Good σ) (hq : q.Fits o v σ.2) (hq₀ : q₀.Fits o v σ.2)
    (hch : Changes o v (q₀, σ.2) (f (q, σ.2)).2) :
    (inQueue o v f σ₁).2.1.queue? o v = some (f (q, σ.2)).2.1 ∧
      (inQueue o v f σ₁).2.2 = (f (q, σ.2)).2.2 ∧ Confined v σ (inQueue o v f σ₁).2 := by
  obtain ⟨r₁, l⟩ := σ₁
  obtain rfl : l = σ.2 := hop.ledger
  have hc := hop.confined hg hq
  have hput := queue?_inQueue hop.queue f o v
  rw [if_pos ⟨rfl, rfl⟩] at hput
  have happ := inQueue_apply hop.queue f
  exact ⟨hput, by rw [happ], hc.trans (confined_inQueue hc.good hop.queue hq₀ hch)⟩

theorem heard_run (hg : Good σ) (hb : σ.2.Backs e) {x : Run} (he : e.payload = .run x)
    (hop : Opened x.organization x.workspace w q σ σ₁) (hw : w.id = x.workspace)
    (hn : σ.1.queue? x.organization x.workspace = none →
      σ.2.store.workspace? x.workspace = some w) :
    ∃ q', Heard e x.organization x.workspace q q' σ
      (inQueue x.organization x.workspace (Queue.handle Backend.services e) σ₁).2 := by
  have hx : σ.2.Vouches (Event.runStatus x) := by
    have hv := hb.vouches fun ws h => by cases he.symm.trans h
    rw [Ledger.Vouches, he] at hv
    exact hv
  have hx' := hx
  obtain ⟨-, hi, hp, -⟩ := hx'
  have hq := hop.fits hg hw hi hp
  have hh := Queue.handle_run he hq.id.symm σ.2
  obtain ⟨hre, htr, hl⟩ := Queue.handleRun_reacts hg.sound hq hx rfl rfl
  rw [← hh] at hre htr hl
  obtain ⟨hput, hled, hc⟩ := hop.react hg hq hq hre.changes
  refine ⟨_, ⟨?_, hop.tracked.1, hop.tracked.2, ?_, hq, hled ▸ hre, ?_, ?_, ?_, hput, hc⟩⟩
  · exact Event.concerns_of_run he rfl
  · rcases hop.origin with ho | ⟨ho, rfl⟩
    · refine .inl ⟨q, ho, rfl, ?_⟩
      rintro ⟨-, ws, hws, -⟩
      cases he.symm.trans hws
    · exact .inr (.inr (hn ho))
  · rw [htr, hear, he]
    exact (if_pos rfl).symm
  · rintro ⟨-, ws, hws, -⟩
    cases he.symm.trans hws
  · intro y hy hs hp r hr hid
    obtain rfl := Payload.run.inj (he.symm.trans hy)
    exact hl hs hp r (hled ▸ hr) hid

theorem heard_workspace (hg : Good σ) (hb : σ.2.Backs e) {ws : Workspace}
    (he : e.payload = .workspace ws) (hop : Opened ws.organization ws.id ws q σ σ₁) :
    ∃ q', Heard e ws.organization ws.id (q.seeing ws) q' σ
      (inQueue ws.organization ws.id (Queue.handle Backend.services e) σ₁).2 := by
  obtain ⟨hi, -, hp⟩ := hb.vouches_workspace he
  have hq := hop.fits hg rfl hi hp
  have hh := Queue.handle_workspace (q := q) he hq.id.symm σ.2
  have hq₀ : (q.seeing ws).Fits ws.organization ws.id σ.2 := hq.see rfl
  obtain ⟨hch, hw, htr⟩ := Queue.retry_reacts hg.sound hq₀
  -- The queue tries its current run if the lock is open, and does nothing else.
  have hre : Reacts ws.organization ws.id (q.seeing ws, σ.2)
        (Queue.handle Backend.services e (q, σ.2)).2 ∧
      (Queue.handle Backend.services e (q, σ.2)).2.1.tracked = q.tracked ∧
      (e.type = .workspaceUnlocked → Waits ws.id (Queue.handle Backend.services e (q, σ.2)).2) := by
    rw [hh]
    split_ifs with ht
    · exact ⟨⟨hch, .inl hw⟩, htr, fun _ => hw⟩
    · exact ⟨.refl _, rfl, fun h => absurd h ht⟩
  obtain ⟨hre, htr, hw⟩ := hre
  obtain ⟨hput, hled, hc⟩ := hop.react hg hq hq₀ hre.changes
  refine ⟨_, ⟨?_, hop.tracked.1, hop.tracked.2, .inr (.inl he), hq₀, hled ▸ hre, ?_, ?_, ?_, hput, hc⟩⟩
  · exact Event.concerns_of_workspace he rfl
  · rw [htr, hear, he]
    rfl
  · rintro ⟨ht, -⟩
    exact hled ▸ hw ht
  · intro x hx
    cases he.symm.trans hx

/-- **An event is ignored or heard.** -/
theorem dispatch_heard (hg : Good σ) (hb : σ.2.Backs e) :
    Ignored e σ (dispatch e σ).2 ∨ ∃ o v q q', Heard e o v q q' σ (dispatch e σ).2 := by
  have hd := dispatch_dispatched hg hb
  generalize (dispatch e σ).2 = σ' at hd ⊢
  cases hd with
  | idle r hr hq _ hne =>
    refine .inl ⟨hg.trim hr, rfl, fun w hw => (hq w hw).1, fun w hw hc => ?_⟩
    rcases hp : e.payload with org | ws | x | c | ⟨relation, name⟩
    all_goals rw [Event.Concerns, hp] at hc
    case workspace => exact hne ws hp
    case run => exact (hq w hw).2 x hp hc
    all_goals exact hc
  | run x w q σ₁ he hop hid hn =>
    obtain ⟨q', h⟩ := heard_run hg hb he hop hid hn
    exact .inr ⟨_, _, _, _, h⟩
  | workspace ws q σ₁ he hop =>
    obtain ⟨q', h⟩ := heard_workspace hg hb he hop
    exact .inr ⟨_, _, _, _, h⟩

end Scheduler

end Provision
