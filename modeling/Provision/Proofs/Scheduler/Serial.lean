import Provision.Proofs.Scheduler.Single

/-!
# Runs that hold locks

* `Scheduler.Serial`: every active run is the current one of its queue, and so is every run that holds a
  lock, which has begun besides. Moves keep this as long as nobody but schedulers queues plans and
  takes locks for runs (`Scheduler.Move.serial`).
-/

namespace Provision.Scheduler

open Identifier (Issued)

variable {o v : String} {σ σ' : Roster × Ledger} {q q' : Queue} {e : Event} {w : Workspace}

/-- Every active run is the current one of its queue, and so is every run that holds a lock. -/
structure Serial (σ : Roster × Ledger) : Prop extends Single σ where
  locked : Everywhere LockedAt σ

theorem Serial.empty : Serial ([], {}) :=
  ⟨⟨.empty, fun _ h => by cases h⟩, fun _ h => by cases h⟩

theorem Serial.taken (h : Serial σ) (hw : w ∈ σ.2.store.workspaces) : σ.2.Taken w.id :=
  (h.locked w hw).taken fun p hp => h.good.fits _ _ p hp

theorem not_enqueuePlan_of_isOutside (run : String) : ¬ (Request.enqueuePlan run).IsOutside :=
  id

/-- **The calls of users and agents** leave the locks of runs alone. -/
theorem Serial.move {r : Roster} {l l' : Ledger} (h : Serial (r, l))
    (hm : l.Move Request.IsOutside l') : Serial (r, l') := by
  obtain ⟨hg', hgr⟩ := h.good.move hm
  refine ⟨h.toSingle.move not_enqueuePlan_of_isOutside hm, fun w' hw' x run hx hl => ?_⟩
  obtain ⟨hxm, hxid⟩ := hg'.sound.ordered.workspace?_eq_some_iff.mp hx
  obtain ⟨w, hw, hid, hlw⟩ : ∃ w ∈ l.store.workspaces, w.id = x.id ∧ w.lock = some (.run run) := by
    cases hm with
    | tick now => exact ⟨x, hxm, rfl, hl⟩
    | request c hc _ => exact (c.effect l).lock_of hc hxm hl
  obtain ⟨u, hu, hxu, ho⟩ := hgr.workspace hxm (hid ▸ h.good.sound.ordered.issuedWorkspaces w hw)
  obtain rfl := h.good.sound.ordered.workspace_eq hu hw (hxu.symm.trans hid.symm)
  obtain rfl := hg'.sound.ordered.workspace_eq hxm hw' hxid
  obtain ⟨hc, hb⟩ := h.locked u hu u run
    (h.good.sound.ordered.workspace?_eq_some_iff.mpr ⟨hu, rfl⟩) hlw
  rw [← ho, hid] at hc
  refine ⟨hc, fun y hy hyid => ?_⟩
  obtain ⟨p, hp, hcp⟩ := Option.bind_eq_some_iff.mp hc
  have hi := ((h.good.fits _ _ p hp).eligible run (Queue.mem_tracked_of_current hcp)).1
  obtain ⟨hy, hyv⟩ := Store.mem_runsOf.mp hy
  obtain ⟨z, hz, hzy⟩ := hgr.run hy (hyid ▸ hi)
  exact hzy.begun (hb z (Store.mem_runsOf.mpr ⟨hz, hid ▸ hzy.workspace.symm.trans hyv⟩)
    (hzy.id.symm.trans hyid))

/-- **Dispatching an event** keeps the locks with current runs. -/
theorem Serial.dispatch (h : Serial σ) (he : σ.2.Backs e) : Serial (dispatch e σ).2 := by
  refine ⟨h.toSingle.dispatch he, ?_⟩
  rcases dispatch_heard h.good he with hi | ⟨o, v, q, q', hh⟩
  · intro w hw
    rw [hi.ledger] at hw
    exact (hi.apart hw).locked (h.locked w hw)
  · exact hh.everywhere h.good (fun _ _ _ => Apart.locked) hh.locked h.locked

/-- **A seed** keeps the locks with current runs, also if there were no queues. -/
theorem Reseeded.serial (h : Reseeded σ σ') (hs : Single σ') (hg : Good σ)
    (hl : Everywhere (fun o v σ => (LockedAt o v σ ∨ σ.1.queue? o v = none) ∧ σ.2.Taken v) σ) :
    Serial σ' := by
  refine ⟨hs, h.everywhere hg (fun ha hP => ?_) Apart.locked (fun _ hs hP => hs.locked hP.1 hP.2) hl⟩
  exact ⟨hP.1.imp ha.locked ha.queue.trans, ha.taken hP.2⟩

/-- **Every move keeps the locks with current runs**, as long as users and agents make only their own
calls. -/
theorem Move.serial (hm : Move Request.IsOutside σ σ') (h : Serial σ) : Serial σ' := by
  have hs := hm.single not_enqueuePlan_of_isOutside h.toSingle
  cases hm with
  | ledger l hl => exact h.move hl
  | dispatch e he => exact h.dispatch (.vouched (h.good.sound.vouched e he))
  | seed =>
    obtain ⟨σ', hok, hr⟩ := h.seed_ok
    rw [hok] at hs ⊢
    exact hr.serial hs h.good fun w hw => ⟨.inl (h.locked w hw), h.taken hw⟩
  | replace =>
    rcases seed_reseeded h.good.forget with ⟨σ', hok, hr⟩ | ⟨e, σ', -, -, w, hw, hc⟩
    · rw [hok] at hs ⊢
      exact hr.serial hs h.good.forget fun w hw => ⟨.inr rfl, h.taken hw⟩
    · exact absurd hc (h.uncrowded hw)

theorem Moves.serial (hm : Moves Request.IsOutside σ σ') (h : Serial σ) : Serial σ' := by
  induction hm with
  | refl => exact h
  | tail _ hm ih => exact hm.serial ih

end Provision.Scheduler
