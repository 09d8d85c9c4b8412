import Provision.Proofs.Scheduler.Serial

/-!
# What a seed repairs

Events may be lost, and a seed is meant to make up for it.

* `Scheduler.Repaired`: all queues are as they should be after a seed.
* `Scheduler.Repairable`: what it takes for the queue of a workspace. Above all, going on from the tracked
  runs that have ended must not come to one that is gone (`Queue.Obstructed`): a seed stops there, and
  leaves the queue with a run that no longer exists.
* `Scheduler.seed_repaired_iff`: a seed that is not refused repairs all queues if and only if they are
  repairable.
* `Scheduler.seed_repaired_iff_of_isOutside`: as long as nobody but schedulers queues plans and takes
  locks for runs, no seed is refused, and an obstruction is all that may stand in the way.
-/

namespace Provision.Scheduler

open Queue (Obstructed lasting)

variable {o v : String} {σ σ₁ σ' : Roster × Ledger} {q : Queue} {l : Ledger} {ws w : Workspace}

/-- The queue of a workspace is as it should be after a seed. -/
structure RepairedAt (o v : String) (σ σ' : Roster × Ledger) : Prop where
  queue : (σ'.1.queue? o v).isSome
  /-- It tracks what it should, and nothing else. -/
  tracked : (σ'.1.tracked o v).Perm (σ'.2.store.unfinishedOf v)
  /-- A run that was active is current. -/
  active : ∀ r ∈ σ.2.store.runsOf v, r.isActive = true →
    (σ'.1.queue? o v).bind (·.current) = some r.id
  /-- If no run was active, no user holds the lock and a run was pending, then one is admitted. -/
  admitted : (∀ r ∈ σ.2.store.runsOf v, r.isActive = false) → ¬ σ.2.UserLocked v →
    (∃ r ∈ σ.2.store.runsOf v, r.speculative = false ∧ r.status = .pending) →
    ∃ r ∈ σ'.2.store.runsOf v, (σ'.1.queue? o v).bind (·.current) = some r.id ∧
      r.status ≠ .pending ∧
      ∃ w, σ'.2.store.workspace? v = some w ∧ w.lock = some (.run r.id)
  /-- A run that holds the lock has not ended. -/
  locked : ∀ w run, σ'.2.store.workspace? v = some w → w.lock = some (.run run) →
    ¬ σ'.2.Ended run

/-- All queues are as they should be after a seed. -/
structure Repaired (σ σ' : Roster × Ledger) : Prop where
  /-- The queues are those of the stored workspaces. -/
  queues : ∀ o v, (σ'.1.queue? o v).isSome ↔
    ∃ w ∈ σ'.2.store.workspaces, w.id = v ∧ w.organization = o
  /-- Each of them is as it should be. -/
  at_workspace : Everywhere (fun o v σ' => RepairedAt o v σ σ') σ'

/-- What it takes for a seed to repair the queue of a workspace. -/
structure Repairable (w : Workspace) (σ : Roster × Ledger) : Prop where
  /-- The tracked runs do not lead to one that is gone. -/
  clear : ¬ Obstructed σ.2 (σ.1.tracked w.organization w.id)
  /-- An active run does not stand behind another one. -/
  first : ∀ r ∈ σ.2.store.runsOf w.id, r.isActive = true →
    ∀ run, (lasting σ.2 (σ.1.tracked w.organization w.id)).head? = some run → run = r.id
  /-- If no run is active, the lock is not held by a run that stands behind another one. -/
  free : (∀ r ∈ σ.2.store.runsOf w.id, r.isActive = false) →
    ∀ holder, w.lock = some (.run holder) → ¬ σ.2.Ended holder →
      ∀ run, (lasting σ.2 (σ.1.tracked w.organization w.id) ++
        σ.2.store.unfinishedOf w.id).head? = some run → run = holder

/-! ## What belongs to other workspaces does not matter -/

theorem Apart.repairable_iff (ha : Apart w.organization w.id σ σ') :
    Repairable w σ' ↔ Repairable w σ := by
  have hl : lasting σ'.2 (σ.1.tracked w.organization w.id) =
      lasting σ.2 (σ.1.tracked w.organization w.id) := Queue.lasting_of_spares ha.spares _
  have hob := Queue.obstructed_of_spares ha.spares (σ.1.tracked w.organization w.id)
  constructor
  · rintro ⟨h₁, h₂, h₃⟩
    simp only [ha.tracked, ha.ledger.runs, ha.unfinishedOf, hl, hob, ha.spares.ended] at h₁ h₂ h₃
    exact ⟨h₁, h₂, h₃⟩
  · rintro ⟨h₁, h₂, h₃⟩
    refine ⟨?_, ?_, ?_⟩
    all_goals simp only [ha.tracked, ha.ledger.runs, ha.unfinishedOf, hl, hob, ha.spares.ended]
    · exact h₁
    · exact h₂
    · exact h₃

theorem Apart.repairedAt_before (ha : Apart o v σ σ₁) :
    RepairedAt o v σ σ' ↔ RepairedAt o v σ₁ σ' := by
  constructor
  · rintro ⟨h₁, h₂, h₃, h₄, h₅⟩
    refine ⟨h₁, h₂, ?_, ?_, h₅⟩
    · rwa [ha.ledger.runs]
    · rwa [ha.ledger.runs, ha.userLocked]
  · rintro ⟨h₁, h₂, h₃, h₄, h₅⟩
    rw [ha.ledger.runs] at h₃
    rw [ha.ledger.runs, ha.userLocked] at h₄
    exact ⟨h₁, h₂, h₃, h₄, h₅⟩

theorem Apart.repairedAt_after (ha : Apart o v σ₁ σ') :
    RepairedAt o v σ σ' ↔ RepairedAt o v σ σ₁ := by
  constructor
  · rintro ⟨h₁, h₂, h₃, h₄, h₅⟩
    simp only [ha.queue, ha.tracked, ha.unfinishedOf, ha.ledger.runs, ha.ledger.workspace,
      ha.spares.ended] at h₁ h₂ h₃ h₄ h₅
    exact ⟨h₁, h₂, h₃, h₄, h₅⟩
  · rintro ⟨h₁, h₂, h₃, h₄, h₅⟩
    refine ⟨?_, ?_, ?_, ?_, ?_⟩
    all_goals simp only [ha.queue, ha.tracked, ha.unfinishedOf, ha.ledger.runs,
      ha.ledger.workspace, ha.spares.ended]
    · exact h₁
    · exact h₂
    · exact h₃
    · exact h₄
    · exact h₅

/-! ## The seed of one workspace -/

section Seeded

variable (h : Seeded ws q l σ σ')

include h

/-- **A seed finds the runs that should be tracked** if and only if it was not obstructed. -/
theorem Seeded.perm_iff : (σ'.1.tracked ws.organization ws.id).Perm (σ'.2.store.unfinishedOf ws.id) ↔
    ¬ Obstructed σ.2 (σ.1.tracked ws.organization ws.id) := by
  constructor
  · intro hp hob
    rw [h.tracked_before, ← Queue.obstructed_of_spares h.released.spares] at hob
    rcases h.fed.outcome with ⟨hn, -⟩ | ⟨-, before, b, after, -, -, hb, ht⟩
    · exact hn hob
    · rw [h.tracked_after, ht] at hp
      obtain ⟨r, hr, hid, -⟩ := Store.mem_unfinishedOf.mp (hp.subset List.mem_cons_self)
      have hsome := h.spares.run? b
      rw [hb, h.confined.good.sound.ordered.run?_eq_some_iff.mpr ⟨hr, hid⟩] at hsome
      cases hsome
  · intro hob
    have hp := Queue.lasting_joining_perm h.sound h.fits
    rw [Queue.lasting_of_spares h.released.spares, h.joining, ← h.tracked_before,
      ← h.tracked_of_clear hob] at hp
    rw [h.unfinishedOf]
    rwa [Store.unfinishedOf, h.runsOf] at hp

theorem Seeded.head_iff_of_active
    (hob : ¬ Obstructed σ.2 (σ.1.tracked ws.organization ws.id)) {r : Run}
    (hr : r ∈ σ.2.store.runsOf ws.id) (ha : r.isActive = true) :
    (σ'.1.tracked ws.organization ws.id).head? = some r.id ↔
      ∀ run, (lasting σ.2 (σ.1.tracked ws.organization ws.id)).head? = some run → run = r.id := by
  have hra : σ.2.store.activeRunsOf ws.id = [r] := by
    have hm := Store.mem_activeRunsOf.mpr ⟨hr, ha⟩
    have hc := h.uncrowded
    rw [Ledger.Crowded] at hc
    rcases hl : σ.2.store.activeRunsOf ws.id with _ | ⟨a, _ | ⟨b, rest⟩⟩
    · rw [hl] at hm
      cases hm
    · rw [hl, List.mem_singleton] at hm
      rw [hm]
    · simp [hl] at hc
  rw [h.tracked_of_clear hob, Queue.joining_of_active hra]
  generalize lasting σ.2 (σ.1.tracked ws.organization ws.id) = before
  rcases before with _ | ⟨a, rest⟩
  · simp
  · simp

theorem Seeded.head_of_inactive
    (hob : ¬ Obstructed σ.2 (σ.1.tracked ws.organization ws.id))
    (hn : ∀ r ∈ σ.2.store.runsOf ws.id, r.isActive = false) :
    (σ'.1.tracked ws.organization ws.id).head? =
      (lasting σ.2 (σ.1.tracked ws.organization ws.id) ++ σ.2.store.unfinishedOf ws.id).head? := by
  have hra : σ.2.store.activeRunsOf ws.id = [] := by
    refine List.eq_nil_iff_forall_not_mem.mpr fun r hr => ?_
    obtain ⟨hr, ha⟩ := Store.mem_activeRunsOf.mp hr
    rw [hn r hr] at ha
    cases ha
  rw [h.tracked_of_clear hob, Queue.joining_of_inactive hra]
  generalize lasting σ.2 (σ.1.tracked ws.organization ws.id) = before
  rcases before with _ | ⟨a, rest⟩
  · simp
  · simp

theorem Seeded.exists_head
    (hob : ¬ Obstructed σ.2 (σ.1.tracked ws.organization ws.id)) {run : String}
    (hh : (σ'.1.tracked ws.organization ws.id).head? = some run) :
    ∃ r ∈ σ'.2.store.runsOf ws.id, r.id = run ∧ r.speculative = false ∧ r.isDone = false := by
  have hm := (h.perm_iff.mpr hob).subset (List.mem_of_mem_head? hh)
  obtain ⟨r, hr, hid, hv, hs, hd⟩ := Store.mem_unfinishedOf.mp hm
  exact ⟨r, Store.mem_runsOf.mpr ⟨hr, hv⟩, hid, hs, hd⟩

/-- A run that holds the lock after a seed is current, or held it before and has not ended. -/
theorem Seeded.lock_after :
    Queue.LockedBut (fun run => ws.lock = some (.run run) ∧ ¬ σ.2.Ended run) ws.id
      (σ'.1.queue? ws.organization ws.id) σ'.2 := by
  rw [h.queue, h.ledger]
  refine Queue.Changes.lockedBut h.fed.reacts.changes fun w run hw hl => ?_
  obtain ⟨w', hw', -, hlock⟩ := h.exists_workspace
  obtain rfl := Option.some.inj (hw'.symm.trans hw)
  obtain ⟨hws, he⟩ := hlock run hl
  exact .inl ⟨hws, fun h' => he ((h.released.spares.ended run).mpr h')⟩

theorem Seeded.keepsLock {run : String} (hl : ws.lock = some (.run run)) (he : ¬ σ.2.Ended run) :
    ∃ w, σ'.2.store.workspace? ws.id = some w ∧ w.lock = some (.run run) := by
  have hrel := h.released
  have hch := h.fed.reacts.changes
  rw [h.ledger]
  cases hrel with
  | kept => exact Queue.Changes.keepsLock hch he ⟨ws, h.stored, hl⟩
  | stale x hx hex =>
    obtain rfl := Holder.run.inj (Option.some.inj (hx.symm.trans hl))
    exact absurd hex he

theorem Seeded.granted (hn : ∀ r ∈ σ.2.store.runsOf ws.id, r.isActive = false) :
    Queue.Granted ws.id σ'.2 := by
  have hn : ∀ r ∈ l.store.runsOf ws.id, ¬ r.isActive = true := fun r hr => by
    rw [h.runsOf] at hr
    simp [hn r hr]
  rw [h.ledger]
  exact Queue.Changes.granted h.fed.reacts.changes h.sound (h.fits.see rfl)
    (fun r hr ha => absurd ha (hn r hr)) fun r hr ha => absurd ha (hn r hr)

/-- The run that comes first after a seed has begun, if nobody else holds the lock. -/
theorem Seeded.begun (hu : ¬ σ.2.UserLocked ws.id) {r : Run} (hr : r ∈ σ'.2.store.runsOf ws.id)
    (hh : (σ'.1.tracked ws.organization ws.id).head? = some r.id)
    (hl : ∀ run, ws.lock = some (.run run) → ¬ σ.2.Ended run → run = r.id) :
    r.status ≠ .pending := by
  have hc := h.current_after.trans hh
  have hlock := h.lock_after
  rw [h.queue] at hc hlock
  have hst : (feed ws (l.store.openRunsOf ws.id) (q, l)).2 =
      ((feed ws (l.store.openRunsOf ws.id) (q, l)).2.1, σ'.2) := Prod.ext rfl h.ledger.symm
  have hw := h.fed.waits
  have hsh := h.shown
  rw [hst] at hw hsh
  refine hw.begun (fun w run hws hrun => ?_) hsh (mt h.userLocked.mp hu) hr hc
  rcases hlock w run hws hrun with ⟨hlw, he⟩ | ⟨hcr, -⟩
  · rw [hl run hlw he]
    exact hc
  · exact hcr

theorem Seeded.repairable (hrep : RepairedAt ws.organization ws.id σ σ') : Repairable ws σ := by
  have hob := h.perm_iff.mp hrep.tracked
  refine ⟨hob, fun r hr ha => ?_, fun hn holder hl he run hrun => ?_⟩
  · exact (h.head_iff_of_active hob hr ha).mp (h.current_after ▸ hrep.active r hr ha)
  · rw [← h.head_of_inactive hob hn] at hrun
    have hm := (h.perm_iff.mpr hob).subset (List.mem_of_mem_head? hrun)
    rw [h.unfinishedOf] at hm
    obtain ⟨x, hx, -, hv, hs, hd⟩ := Store.mem_unfinishedOf.mp hm
    have hx := Store.mem_runsOf.mpr ⟨hx, hv⟩
    have hp : x.status = .pending := by
      by_contra hb
      have ha := (Run.isActive_iff x).mpr ⟨hs, hb, hd⟩
      rw [hn x hx] at ha
      cases ha
    have hu : ¬ σ.2.UserLocked ws.id := by
      rw [Ledger.userLocked_iff h.stored, Workspace.isUserLocked_eq_false (.inr hl)]
      simp
    obtain ⟨r, -, hc, -, w, hw, hlw⟩ := hrep.admitted hn hu ⟨x, hx, hs, hp⟩
    obtain ⟨w', hw', hlw'⟩ := h.keepsLock hl he
    obtain rfl := Option.some.inj (hw.symm.trans hw')
    obtain rfl := Holder.run.inj (Option.some.inj (hlw.symm.trans hlw'))
    rw [h.current_after, hrun] at hc
    exact Option.some.inj hc

theorem Seeded.repairedAt (hrep : Repairable ws σ) : RepairedAt ws.organization ws.id σ σ' := by
  have hob := hrep.clear
  refine ⟨h.queue ▸ rfl, h.perm_iff.mpr hob, fun r hr ha => ?_, fun hn hu hp => ?_, ?_⟩
  · exact h.current_after.trans ((h.head_iff_of_active hob hr ha).mpr (hrep.first r hr ha))
  · obtain ⟨p, hp, hps, hpp⟩ := hp
    obtain ⟨hp, hpv⟩ := Store.mem_runsOf.mp hp
    have hm : p.id ∈ σ'.1.tracked ws.organization ws.id := by
      refine (h.perm_iff.mpr hob).symm.subset (h.unfinishedOf ▸ ?_)
      exact Store.mem_unfinishedOf.mpr ⟨p, hp, rfl, hpv, hps, by rw [Run.isDone, hpp]; rfl⟩
    obtain ⟨c, hc⟩ : ∃ c, (σ'.1.tracked ws.organization ws.id).head? = some c :=
      Option.isSome_iff_exists.mp (by simpa using List.ne_nil_of_mem hm)
    obtain ⟨r, hr, rfl, hs, hd⟩ := h.exists_head hob hc
    have hb := h.begun hu hr hc fun run hl he =>
      (hrep.free hn run hl he r.id (h.head_of_inactive hob hn ▸ hc)).symm
    have ha := (Run.isActive_iff r).mpr ⟨hs, hb, hd⟩
    exact ⟨r, hr, h.current_after.trans hc, hb, h.granted hn r hr ha⟩
  · intro w run hw hl
    rcases h.lock_after w run hw hl with ⟨-, he⟩ | ⟨hc, -⟩
    · exact mt (h.confined.spares.ended run).mp he
    · rw [h.current_after] at hc
      obtain ⟨r, hr, hid, -, hd⟩ := h.exists_head hob hc
      exact Ledger.not_ended_iff.mpr ⟨r, (Store.mem_runsOf.mp hr).1, hid, hd⟩

/-- **A seed repairs the queue of a workspace** if and only if that is repairable. -/
theorem Seeded.repairedAt_iff : RepairedAt ws.organization ws.id σ σ' ↔ Repairable ws σ :=
  ⟨h.repairable, h.repairedAt⟩

end Seeded

/-! ## All workspaces -/

/-- **What a seed repairs**: all queues, if they are repairable. -/
theorem Reseeded.repaired_iff (h : Reseeded σ σ') (hg : Good σ) :
    Repaired σ σ' ↔ ∀ w ∈ σ.2.store.workspaces, Repairable w σ := by
  have hw : ∀ w ∈ σ.2.store.workspaces,
      RepairedAt w.organization w.id σ σ' ↔ Repairable w σ := by
    intro w hw
    obtain ⟨q, l, σ₁, σ₂, ha₁, -, hs, ha₂⟩ := h.tended w hw
    rw [ha₁.repairedAt_before, ha₂.repairedAt_after, hs.repairedAt_iff, ha₁.repairable_iff]
  constructor
  · intro hrep w hwm
    obtain ⟨w', hw', hid, ho⟩ := h.spares.workspace_to hg.sound h.grows hwm
    have hr := hrep.at_workspace w' hw'
    rw [hid, ho] at hr
    exact (hw w hwm).mp hr
  · intro hrep
    have hat : Everywhere (fun o v σ' => RepairedAt o v σ σ') σ' :=
      everywhere_of_spares hg.sound h.grows h.spares fun w hwm => (hw w hwm).mpr (hrep w hwm)
    refine ⟨fun o v => ⟨fun hq => ?_, ?_⟩, hat⟩
    · obtain ⟨q, hq⟩ := Option.isSome_iff_exists.mp hq
      obtain ⟨w, hwm, rfl, rfl⟩ := h.kept o v q hq
      obtain ⟨w', hw', hid, ho⟩ := h.spares.workspace_to hg.sound h.grows hwm
      exact ⟨w', hw', hid, ho⟩
    · rintro ⟨w, hwm, rfl, rfl⟩
      exact (hat w hwm).queue

/-- **A seed that is not refused repairs all queues** if and only if they are repairable, whatever
events were lost, and whoever made what calls. -/
theorem seed_repaired_iff (hm : Moves (fun _ => True) ([], {}) σ) (hok : (seed σ).1 = .ok ()) :
    Repaired σ (seed σ).2 ↔ ∀ w ∈ σ.2.store.workspaces, Repairable w σ := by
  have hg := Moves.good hm .empty
  rcases seed_reseeded hg with ⟨σ', hσ', hr⟩ | ⟨e, σ', hσ', -⟩
  · rw [hσ']
    exact hr.repaired_iff hg
  · rw [hσ'] at hok
    cases hok

/-- A scheduler with three runs of one workspace, the first of which is admitted. -/
def threeRuns : Roster × Ledger :=
  let l := Ledger.firstRun.after [
    .createRun { workspace := Identifier.fresh Workspace.stem 0 },
    .createRun { workspace := Identifier.fresh Workspace.stem 0 }]
  l.announced.foldl (fun σ e => (dispatch e σ).2) ([], l)

/-- The first run was canceled, and the scheduler has not heard of it. -/
def canceledUnheard : Roster × Ledger :=
  (threeRuns.1, threeRuns.2.after [.cancel (Identifier.fresh Run.stem 1)])

/-- The first two runs were canceled, the second one was deleted, and the scheduler has not heard of
it. -/
def deletedUnheard : Roster × Ledger :=
  (threeRuns.1, threeRuns.2.after [
    .cancel (Identifier.fresh Run.stem 1),
    .cancel (Identifier.fresh Run.stem 2),
    .deleteRun (Identifier.fresh Run.stem 2)])

theorem moves_threeRuns : Moves Request.IsOutside ([], {}) threeRuns := by
  have hl : Moves Request.IsOutside ([], {}) ([], Ledger.firstRun.after [
      .createRun { workspace := Identifier.fresh Workspace.stem 0 },
      .createRun { workspace := Identifier.fresh Workspace.stem 0 }]) := by
    refine Moves.of_ledger (σ := ([], {})) ((Ledger.moves_after ?_ ?_).trans (Ledger.moves_after ?_ ?_))
    · simp [Request.IsOutside]
    · decide +kernel
    · simp [Request.IsOutside]
    · decide +kernel
  exact hl.trans (Moves.of_events (Moves.good hl .empty) fun e he => he)

theorem moves_unheard {calls : List Request} (hp : ∀ c ∈ calls, c.IsOutside)
    (hd : ∀ e ∈ (threeRuns.2.after calls).announced, e.type ≠ .organizationDeleted) :
    Moves Request.IsOutside ([], {}) (threeRuns.1, threeRuns.2.after calls) :=
  moves_threeRuns.trans (Moves.of_ledger (Ledger.moves_after hp hd))

/-- A seed makes up for a lost event: the run after the canceled one is admitted. -/
theorem seed_repaired_canceledUnheard : Moves (fun _ => True) ([], {}) canceledUnheard ∧
    (seed canceledUnheard).1 = .ok () ∧ Repaired canceledUnheard (seed canceledUnheard).2 := by
  have hm : Moves (fun _ => True) ([], {}) canceledUnheard := by
    have hout : Moves Request.IsOutside ([], {}) canceledUnheard := by
      refine moves_unheard ?_ ?_
      · simp [Request.IsOutside]
      · decide +kernel
    exact hout.mono fun _ _ => trivial
  have hok : (seed canceledUnheard).1 = .ok () := by decide +kernel
  refine ⟨hm, hok, (seed_repaired_iff hm hok).mpr fun w hw => ?_⟩
  have hinactive : ∀ w ∈ canceledUnheard.2.store.workspaces,
      ∀ r ∈ canceledUnheard.2.store.runsOf w.id, r.isActive = false := by decide +kernel
  have hclear : ∀ w ∈ canceledUnheard.2.store.workspaces,
      ¬ Obstructed canceledUnheard.2 (canceledUnheard.1.tracked w.organization w.id) := by
    decide +kernel
  have hlock : ∀ w ∈ canceledUnheard.2.store.workspaces,
      w.lock = some (.run (Identifier.fresh Run.stem 1)) := by decide +kernel
  have hended : canceledUnheard.2.Ended (Identifier.fresh Run.stem 1) := by decide +kernel
  refine ⟨hclear w hw, fun r hr ha => ?_, fun _ holder hl he => ?_⟩
  · rw [hinactive w hw r hr] at ha
    cases ha
  · obtain rfl := Holder.run.inj (Option.some.inj ((hlock w hw).symm.trans hl))
    exact absurd hended he

/-- A seed does not make up for all lost events: the queue is left with the deleted run as the current
one. -/
theorem not_repaired_deletedUnheard : Moves Request.IsOutside ([], {}) deletedUnheard ∧
    (seed deletedUnheard).1 = .ok () ∧ ¬ Repaired deletedUnheard (seed deletedUnheard).2 := by
  refine ⟨moves_unheard ?_ ?_, ?_, fun hrep => ?_⟩
  · simp [Request.IsOutside]
  · decide +kernel
  · decide +kernel
  · obtain ⟨w, hw, hn⟩ : ∃ w ∈ (seed deletedUnheard).2.2.store.workspaces,
        ¬ ((seed deletedUnheard).2.1.tracked w.organization w.id).Perm
          ((seed deletedUnheard).2.2.store.unfinishedOf w.id) := by
      decide +kernel
    exact hn (hrep.at_workspace w hw).tracked

/-- Where only schedulers queue plans and take locks for runs, an obstruction is all that may stand in
the way. -/
theorem Serial.repairable_iff (h : Serial σ) (hw : w ∈ σ.2.store.workspaces) :
    Repairable w σ ↔ ¬ Obstructed σ.2 (σ.1.tracked w.organization w.id) := by
  refine ⟨Repairable.clear, fun hob => ⟨hob, fun r hr ha run hrun => ?_, fun hn holder hl he => ?_⟩⟩
  · obtain ⟨q, hq, hc⟩ := Option.bind_eq_some_iff.mp (h.held w hw r hr ha)
    have he : ¬ σ.2.Ended r.id := Ledger.not_ended_iff.mpr
      ⟨r, (Store.mem_runsOf.mp hr).1, rfl, ((Run.isActive_iff r).mp ha).2.2⟩
    rw [Roster.tracked_of_queue? hq, Queue.tracked_eq_cons hc, lasting,
      List.filter_cons_of_pos (by simpa using he), List.head?_cons] at hrun
    exact (Option.some.inj hrun).symm
  · obtain ⟨r, hr, -⟩ := h.taken hw w holder
      (h.good.sound.ordered.workspace?_eq_some_iff.mpr ⟨hw, rfl⟩) hl he
    obtain ⟨hr, ha⟩ := Store.mem_activeRunsOf.mp hr
    rw [hn r hr] at ha
    cases ha

/-- **No seed is refused**, and only an obstruction keeps it from repairing a queue, as long as users and
agents make only their own calls. -/
theorem seed_repaired_iff_of_isOutside (hm : Moves Request.IsOutside ([], {}) σ) :
    (seed σ).1 = .ok () ∧ (Repaired σ (seed σ).2 ↔ ∀ w ∈ σ.2.store.workspaces,
      ¬ Obstructed σ.2 (σ.1.tracked w.organization w.id)) := by
  have h := Moves.serial hm .empty
  obtain ⟨σ', hok, hr⟩ := h.seed_ok
  rw [hok, hr.repaired_iff h.good]
  exact ⟨rfl, forall₂_congr fun w hw => h.repairable_iff hw⟩

end Provision.Scheduler
