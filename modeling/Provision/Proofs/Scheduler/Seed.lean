import Provision.Proofs.Scheduler.Dispatch
import Provision.Proofs.Scheduler.Feed

/-!
# Seeding the queue of a workspace

* `Ledger.Crowded`: several runs of a workspace are active. The seed of such a workspace is refused.
* `Ledger.Released`: the lock of the workspace is given back if the run that holds it has ended.
* `Scheduler.Seeded`: what the seed of another workspace comes to (`Scheduler.seedWorkspace_seeded`): its
  queue, which is made if there is none, is fed. Unless the way was obstructed, it tracks the runs that
  have not ended, and then those that join them (`Scheduler.Seeded.tracked_of_clear`).
-/

namespace Provision

namespace Ledger

variable {l l' : Ledger} {u v : String} {ws : Workspace}

/-- Several runs of a workspace are active. -/
def Crowded (l : Ledger) (v : String) : Prop :=
  1 < (l.store.activeRunsOf v).length

theorem Apart.crowded (h : l.Apart v l') : l'.Crowded v ↔ l.Crowded v := by
  rw [Crowded, Crowded, Store.activeRunsOf, Store.activeRunsOf, Store.openRunsOf, Store.openRunsOf,
    h.runs]

/-- The lock of a workspace before its queue is fed: a run that holds it has not ended. -/
inductive Released (ws : Workspace) (l : Ledger) : Ledger → Prop
  /-- The lock stays as it is. -/
  | kept : (∀ run, ws.lock = some (.run run) → ¬ l.Ended run) → Released ws l l
  /-- The run that held the lock has ended. -/
  | stale (run : String) : ws.lock = some (.run run) → l.Ended run → Released ws l (l.release ws)

section Released

variable (h : Released ws l l')

include h

theorem Released.runs : l'.store.runs = l.store.runs := by
  cases h <;> rfl

theorem Released.apart (hu : u ≠ ws.id) : l.Apart u l' := by
  cases h with
  | kept => exact .refl u l
  | stale => exact apart_putWorkspace (w := { ws with lock := none }) hu _ l

theorem Released.spares : l.Spares l' := by
  cases h with
  | kept => exact .refl l
  | stale => exact .putWorkspace _ _

variable (hw : l.store.workspace? ws.id = some ws)

include hw

theorem Released.sound (hs : l.Sound) : l'.Sound ∧ l.Grows l' := by
  cases h with
  | kept => exact ⟨hs, .refl l⟩
  | stale => exact sound_release hw hs

theorem Released.workspace : ∃ w, l'.store.workspace? ws.id = some w ∧
    w.isUserLocked = ws.isUserLocked ∧
    ∀ run, w.lock = some (.run run) → ws.lock = some (.run run) ∧ ¬ l'.Ended run := by
  cases h with
  | kept hk => exact ⟨ws, hw, rfl, fun run hr => ⟨hr, hk run hr⟩⟩
  | stale run hr he =>
    refine ⟨_, workspace?_release hw, ?_, fun x hx => by cases hx⟩
    rw [Workspace.isUserLocked, Workspace.isUserLocked, hr]
    rfl

end Released

/-- A run that holds the lock of the workspace is active, unless it has ended. -/
def Taken (l : Ledger) (v : String) : Prop :=
  ∀ w run, l.store.workspace? v = some w → w.lock = some (.run run) → ¬ l.Ended run →
    ∃ r ∈ l.store.activeRunsOf v, r.id = run

end Ledger

namespace Queue

variable {q : Option Queue} {l : Ledger} {o v : String}

theorem Held.uncrowded (h : Held v q l) (hs : l.Sound) : ¬ l.Crowded v := by
  have hn : ((l.store.activeRunsOf v).map Run.id).Nodup :=
    hs.ordered.runs.sublist
      (((List.filter_sublist.trans List.filter_sublist).trans List.filter_sublist).map _)
  intro hc
  rw [Ledger.Crowded, ← List.length_map (f := Run.id)] at hc
  have hall : ∀ id ∈ (l.store.activeRunsOf v).map Run.id, q.bind (·.current) = some id := by
    intro id hid
    obtain ⟨r, hr, rfl⟩ := List.mem_map.mp hid
    obtain ⟨hr, ha⟩ := Store.mem_activeRunsOf.mp hr
    exact h r hr ha
  generalize (l.store.activeRunsOf v).map Run.id = ids at hn hc hall
  rcases ids with _ | ⟨a, _ | ⟨b, rest⟩⟩
  · simp at hc
  · simp at hc
  · have hab : a = b := Option.some.inj ((hall a (by simp)).symm.trans (hall b (by simp)))
    simp [hab] at hn

theorem Locked.taken (h : Locked v q l) (hq : ∀ p, q = some p → p.Fits o v l) : l.Taken v := by
  intro w run hw hl he
  obtain ⟨hc, hb⟩ := h w run hw hl
  obtain ⟨p, rfl, hcp⟩ := Option.bind_eq_some_iff.mp hc
  obtain ⟨r, hr, hid, hd⟩ := Ledger.not_ended_iff.mp he
  obtain ⟨hv, -, hns⟩ := ((hq p rfl).eligible run (mem_tracked_of_current hcp)).2 r hr hid
  have hr : r ∈ l.store.runsOf v := Store.mem_runsOf.mpr ⟨hr, hv⟩
  exact ⟨r, Store.mem_activeRunsOf.mpr ⟨hr, (Run.isActive_iff r).mpr ⟨hns, hb r hr hid, hd⟩⟩, hid⟩

end Queue

namespace Scheduler

open Effect
open Ledger (Crowded Released)
open Queue (Held Locked Obstructed lasting)

variable {σ σ' : Roster × Ledger} {ws : Workspace} {q : Queue} {l : Ledger}

/-- To release a stale lock is never refused: the lock is left alone, or asked to be opened. -/
theorem releaseStaleLock_cases (ws : Workspace) (active : Option Run) (σ : Roster × Ledger) :
    ∃ l, releaseStaleLock ws active σ = (.ok (), (σ.1, l)) ∧
      (l = σ.2 ∨ ∃ run, l = (Service.unlockWorkspace ws.id (.run run) false σ.2).2) := by
  unfold releaseStaleLock
  rcases ws.lock with _ | run | name
  · exact ⟨_, rfl, .inl rfl⟩
  · have hget : attempt (call (Service.getRun run)) σ = (.ok (Service.getRun run σ.2).1, σ) :=
      attempt_call_apply (Prod.ext rfl (Service.getRun_snd run σ.2))
    dsimp only
    split_ifs
    · exact ⟨_, rfl, .inl rfl⟩
    · rw [bind_ok hget]
      split_ifs
      · exact ⟨_, rfl, .inr ⟨run, rfl⟩⟩
      · exact ⟨_, rfl, .inl rfl⟩
  · exact ⟨_, rfl, .inl rfl⟩

theorem releaseStaleLock_released (hs : σ.2.Sound) (hw : σ.2.store.workspace? ws.id = some ws) :
    ∃ l, releaseStaleLock ws (σ.2.store.activeRunsOf ws.id).head? σ = (.ok (), (σ.1, l)) ∧
      Released ws σ.2 l := by
  unfold releaseStaleLock
  rcases hl : ws.lock with _ | ⟨run⟩ | ⟨name⟩
  · exact ⟨σ.2, rfl, .kept fun run h => by cases hl.symm.trans h⟩
  · have hkept : ¬ σ.2.Ended run → Released ws σ.2 σ.2 := fun he => .kept fun run' h => by
      obtain rfl := Holder.run.inj (Option.some.inj (hl.symm.trans h))
      exact he
    have hunlock : σ.2.Ended run → attempt (call (Service.unlockWorkspace ws.id (.run run) false)) σ =
        (.ok (.ok (some { ws with lock := none })), (σ.1, σ.2.release ws)) := by
      intro _
      have hu := Service.unlockWorkspace_apply ws.id (.run run) false σ.2
      obtain ⟨-, ha⟩ | ⟨hne, -⟩ := ws.release_run run
      · simp only [hw, ha] at hu
        exact attempt_call_apply hu
      · exact absurd hl hne
    have hget := Service.getRun_apply run σ.2
    dsimp only
    split_ifs with ha
    · refine ⟨σ.2, rfl, hkept fun he => ?_⟩
      obtain ⟨r, hr, hid⟩ := (Option.any_eq_true _ _).mp ha
      obtain ⟨hr, hra⟩ := Store.mem_activeRunsOf.mp (List.mem_of_mem_head? hr)
      have hd := he r (Store.mem_runsOf.mp hr).1 (by simpa using hid)
      rw [((Run.isActive_iff r).mp hra).2.2] at hd
      cases hd
    · rcases hr : σ.2.store.run? run with _ | r
      · rw [hr] at hget
        have he := Ledger.ended_of_gone hr
        refine ⟨_, ?_, .stale run hl he⟩
        rw [bind_ok (attempt_call_apply hget)]
        exact bind_ok (hunlock he)
      · rw [hr] at hget
        have he := Ledger.ended_iff hs hr
        by_cases hd : r.isDone = true
        · refine ⟨_, ?_, .stale run hl (he.mpr hd)⟩
          rw [bind_ok (attempt_call_apply hget)]
          dsimp only
          rw [if_pos hd]
          exact bind_ok (hunlock (he.mpr hd))
        · refine ⟨σ.2, ?_, hkept fun h => hd (he.mp h)⟩
          rw [bind_ok (attempt_call_apply hget)]
          dsimp only
          rw [if_neg hd]
          rfl
  · exact ⟨σ.2, rfl, .kept fun run h => by cases hl.symm.trans h⟩

/-- What the seed of a workspace comes to that is not crowded: the queue `q`, which may be a new one, is
fed when the ledger is `l`. -/
structure Seeded (ws : Workspace) (q : Queue) (l : Ledger) (σ σ' : Roster × Ledger) : Prop where
  stored : σ.2.store.workspace? ws.id = some ws
  uncrowded : ¬ σ.2.Crowded ws.id
  /-- The lock was looked at. -/
  released : Released ws σ.2 l
  /-- The queue was there or is new. -/
  origin : σ.1.queue? ws.organization ws.id = some q ∨
    (σ.1.queue? ws.organization ws.id = none ∧ q = { workspace := ws })
  sound : l.Sound
  fits : q.Fits ws.organization ws.id l
  queue : σ'.1.queue? ws.organization ws.id =
    some (feed ws (l.store.openRunsOf ws.id) (q, l)).2.1
  ledger : σ'.2 = (feed ws (l.store.openRunsOf ws.id) (q, l)).2.2
  confined : Confined ws.id σ σ'

theorem seedWorkspace_apply (ws : Workspace) (σ : Roster × Ledger) : seedWorkspace ws σ =
    if 1 < (σ.2.store.activeRunsOf ws.id).length then
      (.error (violation ws.id (σ.2.store.activeRunsOf ws.id)), σ)
    else (do
      releaseStaleLock ws (σ.2.store.activeRunsOf ws.id).head?
      ensureQueue ws
      let _ ← attempt (inQueue ws.organization ws.id (feed ws (σ.2.store.openRunsOf ws.id)))
      : Step Unit) σ := by
  have hlist : call (Service.listRuns { workspace := some ws.id, statuses := some unfinished }) σ =
      (.ok (σ.2.store.openRunsOf ws.id), σ) := by
    rw [← Store.listRuns_unfinished]
    rfl
  unfold seedWorkspace
  rw [bind_ok hlist]
  dsimp only
  change (if 1 < (σ.2.store.activeRunsOf ws.id).length then _ else _ : Step Unit) σ = _
  split_ifs <;> rfl

theorem ensureQueue_opened (ws : Workspace) (σ : Roster × Ledger) :
    ∃ q σ₁, ensureQueue ws σ = (.ok (), σ₁) ∧ Opened ws.organization ws.id ws q σ σ₁ := by
  obtain ⟨q, hop⟩ := opened_of_ensure σ ws.organization ws.id ws
  exact ⟨q, _, revise_apply _ σ, hop⟩

theorem seedWorkspace_crowded (hc : σ.2.Crowded ws.id) :
    seedWorkspace ws σ = (.error (violation ws.id (σ.2.store.activeRunsOf ws.id)), σ) :=
  (seedWorkspace_apply ws σ).trans (if_pos hc)

/-- Any other workspace has its queue fed, whatever the queues are; the queue was there or is new. -/
theorem seedWorkspace_fed {l : Ledger} (hc : ¬ σ.2.Crowded ws.id)
    (hrel : releaseStaleLock ws (σ.2.store.activeRunsOf ws.id).head? σ = (.ok (), (σ.1, l))) :
    ∃ q σ', seedWorkspace ws σ = (.ok (), σ') ∧
      (σ.1.queue? ws.organization ws.id = some q ∨
        (σ.1.queue? ws.organization ws.id = none ∧ q = { workspace := ws })) ∧
      σ'.2 = (feed ws (σ.2.store.openRunsOf ws.id) (q, l)).2.2 ∧
      ∀ o v, σ'.1.queue? o v = if o = ws.organization ∧ v = ws.id
        then some (feed ws (σ.2.store.openRunsOf ws.id) (q, l)).2.1 else σ.1.queue? o v := by
  obtain ⟨q, ⟨r, l₁⟩, hens, hop⟩ := ensureQueue_opened ws (σ.1, l)
  obtain rfl : l₁ = l := hop.ledger
  have hseed := (seedWorkspace_apply ws σ).trans (if_neg hc)
  rw [bind_ok hrel, bind_ok hens] at hseed
  have happ := inQueue_apply hop.queue (feed ws (σ.2.store.openRunsOf ws.id))
  have hput := queue?_inQueue hop.queue (feed ws (σ.2.store.openRunsOf ws.id))
  refine ⟨q, _, hseed, hop.origin, congrArg (fun x => x.2.2) happ, fun o v => (hput o v).trans ?_⟩
  split_ifs with h
  · rfl
  · exact hop.others o v h

/-- **The seed of a workspace** is refused if and only if it is crowded. -/
theorem seedWorkspace_seeded (hg : Good σ) (hw : σ.2.store.workspace? ws.id = some ws) :
    (σ.2.Crowded ws.id ∧ ∃ e, seedWorkspace ws σ = (.error e, σ)) ∨
      ∃ q l σ', seedWorkspace ws σ = (.ok (), σ') ∧ Seeded ws q l σ σ' := by
  have hseed := seedWorkspace_apply ws σ
  by_cases hc : 1 < (σ.2.store.activeRunsOf ws.id).length
  · rw [if_pos hc] at hseed
    exact .inl ⟨hc, _, hseed⟩
  rw [if_neg hc] at hseed
  obtain ⟨l, hrel, hl⟩ := releaseStaleLock_released hg.sound hw
  obtain ⟨q, ⟨r₁, l₁⟩, hens, hop⟩ := ensureQueue_opened ws (σ.1, l)
  obtain rfl : l = l₁ := hop.ledger.symm
  rw [bind_ok hrel, bind_ok hens] at hseed
  obtain ⟨hs, hgr⟩ := hl.sound hw hg.sound
  -- Nothing but the ledger has changed so far, and only for this workspace.
  have hg₁ : Good (σ.1, l) := ⟨hs, fun o v q hq => (hg.fits o v q hq).mono hgr⟩
  have hc₁ : Confined ws.id σ (σ.1, l) :=
    ⟨hg₁, hgr, hl.spares, fun _ _ _ => rfl, fun u hu => hl.apart hu⟩
  obtain ⟨w, hw', -⟩ := hl.workspace hw
  have hm := Store.workspace?_mem hw
  have hq : q.Fits ws.organization ws.id l := by
    refine hop.fits hg₁ rfl ?_ fun w hwm hid => ?_
    · exact Store.workspace?_id hw' ▸ hs.ordered.issuedWorkspaces w (Store.workspace?_mem hw')
    · obtain ⟨v, hv, hwv, ho⟩ := hgr.workspace hwm (hid ▸ hg.sound.ordered.issuedWorkspaces ws hm)
      rw [ho, hg.sound.ordered.workspace_eq hv hm (hwv.symm.trans hid)]
  have hopen : σ.2.store.openRunsOf ws.id = l.store.openRunsOf ws.id := by
    rw [Store.openRunsOf, Store.openRunsOf, Store.runsOf, Store.runsOf, hl.runs]
  have hfed : Queue.Fed ws.organization ws.id ws q l (feed ws (l.store.openRunsOf ws.id) (q, l)) :=
    Queue.feed_fed hs hq (hw' ▸ rfl) rfl
  have hc₂ := hop.confined hg₁ hq
  have hc₃ := confined_inQueue (x := feed ws (l.store.openRunsOf ws.id)) hc₂.good hop.queue
    (hq.see rfl) hfed.reacts.changes
  rw [hopen] at hseed
  have happ := inQueue_apply hop.queue (feed ws (l.store.openRunsOf ws.id))
  have hput := queue?_inQueue hop.queue (feed ws (l.store.openRunsOf ws.id)) ws.organization ws.id
  rw [if_pos ⟨rfl, rfl⟩] at hput
  exact .inr ⟨q, l, _, hseed, hw, hc, hl, hop.origin, hs, hq, hput,
    congrArg (fun x => x.2.2) happ, (hc₁.trans hc₂).trans hc₃⟩

/-! ## What holds after a seed -/

section Seeded

variable (h : Seeded ws q l σ σ')

include h

theorem Seeded.exists_workspace : ∃ w, l.store.workspace? ws.id = some w ∧
    w.isUserLocked = ws.isUserLocked ∧
    ∀ run, w.lock = some (.run run) → ws.lock = some (.run run) ∧ ¬ l.Ended run :=
  h.released.workspace h.stored

theorem Seeded.fed : Queue.Fed ws.organization ws.id ws q l
    (feed ws (l.store.openRunsOf ws.id) (q, l)) := by
  obtain ⟨w, hw, -⟩ := h.exists_workspace
  exact Queue.feed_fed h.sound h.fits (hw ▸ rfl) rfl

theorem Seeded.runsOf : l.store.runsOf ws.id = σ.2.store.runsOf ws.id := by
  rw [Store.runsOf, Store.runsOf, h.released.runs]

theorem Seeded.activeRunsOf : l.store.activeRunsOf ws.id = σ.2.store.activeRunsOf ws.id := by
  rw [Store.activeRunsOf, Store.activeRunsOf, Store.openRunsOf, Store.openRunsOf, h.runsOf]

theorem Seeded.spares : l.Spares σ'.2 :=
  h.ledger ▸ Queue.Changes.spares h.fed.reacts.changes h.sound (h.fits.see rfl)

theorem Seeded.tracked_before : σ.1.tracked ws.organization ws.id = q.tracked := by
  rcases h.origin with hq | ⟨hn, rfl⟩
  · exact Roster.tracked_of_queue? hq
  · rw [Roster.tracked, hn]
    rfl

theorem Seeded.tracked_after : σ'.1.tracked ws.organization ws.id =
    (feed ws (l.store.openRunsOf ws.id) (q, l)).2.1.tracked :=
  Roster.tracked_of_queue? h.queue

theorem Seeded.current_after : (σ'.1.queue? ws.organization ws.id).bind (·.current) =
    (σ'.1.tracked ws.organization ws.id).head? := by
  rw [h.tracked_after, Queue.head?_tracked (h.confined.good.fits _ _ _ h.queue).headed, h.queue]
  rfl

theorem Seeded.joining : Queue.joining l ws.id = Queue.joining σ.2 ws.id := by
  rw [Queue.joining, Queue.joining, Store.openRunsOf, Store.openRunsOf, h.runsOf]

theorem Seeded.unfinishedOf : σ'.2.store.unfinishedOf ws.id = σ.2.store.unfinishedOf ws.id := by
  rw [h.ledger, Queue.Changes.unfinishedOf h.fed.reacts.changes h.sound (h.fits.see rfl),
    Store.unfinishedOf, Store.unfinishedOf, h.runsOf]

theorem Seeded.tracked_of_clear
    (hob : ¬ Obstructed σ.2 (σ.1.tracked ws.organization ws.id)) :
    σ'.1.tracked ws.organization ws.id =
      lasting σ.2 (σ.1.tracked ws.organization ws.id) ++ (Queue.joining σ.2 ws.id).filter
        (· ∉ lasting σ.2 (σ.1.tracked ws.organization ws.id)) := by
  rw [h.tracked_before, ← Queue.obstructed_of_spares h.released.spares] at hob
  rcases h.fed.outcome with ⟨-, ht, -⟩ | ⟨hob', -⟩
  · rw [h.tracked_after, ht, h.tracked_before, Queue.lasting_of_spares h.released.spares, h.joining]
  · exact absurd hob' hob

/-- A run that is tracked after a seed was tracked before, or has not ended. -/
theorem Seeded.mem_tracked {run : String} (hr : run ∈ σ'.1.tracked ws.organization ws.id) :
    run ∈ σ.1.tracked ws.organization ws.id ∨ run ∈ σ.2.store.unfinishedOf ws.id := by
  rw [h.tracked_after] at hr
  rw [h.tracked_before]
  rcases h.fed.outcome with ⟨-, ht, -⟩ | ⟨-, before, b, after, hsplit, -, -, ht⟩
  · rw [ht, h.joining] at hr
    refine (List.mem_append.mp hr).imp (fun hr => (Queue.mem_lasting.mp hr).1) fun hr => ?_
    exact (Queue.joining_perm _ _).mem_iff.mp (List.mem_filter.mp hr).1
  · rw [ht] at hr
    exact .inl (hsplit ▸ List.mem_append_right _ hr)

/-- **An active run is the current one** after a seed, if it was before, or if there was no queue. -/
theorem Seeded.held (hh : Held ws.id (σ.1.queue? ws.organization ws.id) σ.2 ∨
      σ.1.queue? ws.organization ws.id = none) :
    Held ws.id (σ'.1.queue? ws.organization ws.id) σ'.2 := by
  obtain ⟨w, hw, -⟩ := h.exists_workspace
  rw [h.queue, h.ledger]
  refine Queue.feed_held h.sound h.fits (hw ▸ rfl) rfl ?_
  rcases h.origin with ho | ⟨hn, hq⟩
  · rw [ho] at hh
    have hh := hh.resolve_right (by simp)
    exact .inl fun r hr ha => hh r (h.runsOf ▸ hr) ha
  · have hc := h.uncrowded
    rw [Crowded, ← h.activeRunsOf, not_lt] at hc
    exact .inr ⟨by rw [hq], hc⟩

/-- **A run that holds the lock is the current one** after a seed, if it was before, or if there was no
queue and the run was active. -/
theorem Seeded.locked (hl : Locked ws.id (σ.1.queue? ws.organization ws.id) σ.2 ∨
      σ.1.queue? ws.organization ws.id = none) (ht : σ.2.Taken ws.id) :
    Locked ws.id (σ'.1.queue? ws.organization ws.id) σ'.2 := by
  obtain ⟨w, hw, -, hlock⟩ := h.exists_workspace
  rw [h.queue, h.ledger]
  refine Queue.feed_locked h.sound h.fits (hw ▸ rfl) rfl ?_
  rcases h.origin with ho | ⟨hn, hq⟩
  · rw [ho] at hl
    have hl := hl.resolve_right (by simp)
    refine .inl fun v run hv hr => ?_
    obtain rfl := Option.some.inj (hw.symm.trans hv)
    rw [h.runsOf]
    exact hl ws run h.stored (hlock run hr).1
  · have hc := h.uncrowded
    rw [Crowded, ← h.activeRunsOf, not_lt] at hc
    refine .inr ⟨by rw [hq], hc, fun v run hv hr => ?_⟩
    obtain rfl := Option.some.inj (hw.symm.trans hv)
    obtain ⟨hws, he⟩ := hlock run hr
    rw [h.activeRunsOf]
    exact ht ws run h.stored hws fun hσ => he ((h.released.spares.ended run).mpr hσ)

theorem Seeded.shown : Queue.Shown ws.id
    (feed ws (l.store.openRunsOf ws.id) (q, l)).2 := by
  obtain ⟨w, hw, hu, -⟩ := h.exists_workspace
  refine Queue.Changes.shown h.fed.reacts.changes fun hws => ?_
  exact ⟨w, hw, hu.trans hws⟩

theorem Seeded.userLocked : σ'.2.UserLocked ws.id ↔ σ.2.UserLocked ws.id := by
  obtain ⟨w, hw, hu, -⟩ := h.exists_workspace
  rw [h.ledger, Queue.Changes.userLocked h.fed.reacts.changes, Ledger.userLocked_iff hw, hu,
    Ledger.userLocked_iff h.stored]

end Seeded

end Scheduler

end Provision
