import Provision.Proofs.Queue.Fits

/-!
# Admission and release

What a queue's calls of the services come to, in terms of what is stored.

* `Queue.schedule_tried`: an attempt to admit a run either changes nothing, for a reason that is listed,
  or locks the workspace, queues the plan and records the run (`Ledger.accept`).
* `Queue.unlock_apply`: a run that holds the lock gives it back, another one does not.
-/

namespace Provision

namespace Backend

theorem services_getRun : services.getRun = Service.getRun := rfl

theorem services_enqueuePlan : services.enqueuePlan = Service.enqueuePlan := rfl

theorem services_lockWorkspace : services.lockWorkspace = Service.lockWorkspace := rfl

theorem services_unlockWorkspace : services.unlockWorkspace = Service.unlockWorkspace := rfl

theorem services_setCurrentRun : services.setCurrentRun = Service.setCurrentRun := rfl

end Backend

namespace Queue

open Effect

variable {q : Queue} {l : Ledger} {run : String}

theorem call_apply {α : Type} {x : Service α} {res : Except Error α} {l' : Ledger}
    (h : x l = (res, l')) (q : Queue) : call x (q, l) = (res, (q, l')) := by
  change ((x l).1, (q, (x l).2)) = _
  rw [h]

theorem attempt_apply {σ α : Type} {x : Step σ α} {res : Except Error α} {s s' : Queue × σ}
    (h : x s = (res, s')) : attempt x s = (.ok res, s') := by
  change (Except.ok (x s).1, (x s).2) = _
  rw [h]

theorem self_apply (q : Queue) (l : Ledger) :
    (self : Step Ledger Queue) (q, l) = (.ok q, (q, l)) := rfl

theorem revise_apply (f : Queue → Queue) (q : Queue) (l : Ledger) :
    (revise f : Step Ledger Unit) (q, l) = (.ok (), (f q, l)) := rfl

theorem see_apply (w : Workspace) (q : Queue) (l : Ledger) :
    (see w : Step Ledger Unit) (q, l) = (.ok (), (q.seeing w, l)) := rfl

/-! ## Admission -/

/-- What an attempt to admit a run comes to. -/
inductive Tried (q : Queue) (l : Ledger) (run : String) :
    Except Error Unit × Queue × Ledger → Prop
  | gone : l.store.run? run = none → Tried q l run (.error (.runNotFound run), q, l)
  | past (r : Run) : l.store.run? run = some r → r.status ≠ .pending →
      Tried q l run (.ok (), q, l)
  /-- A user holds the lock, as far as is known. -/
  | heldCopy (r : Run) : l.store.run? run = some r → r.status = .pending →
      q.workspace.isUserLocked = true → Tried q l run (.ok (), q, l)
  /-- The workspace is gone. -/
  | unhoused (r : Run) : l.store.run? run = some r → r.status = .pending →
      l.store.workspace? q.workspace.id = none →
      Tried q l run (.error (.workspaceNotFound q.workspace.id), q, l)
  /-- Somebody else holds the lock. -/
  | held (r : Run) (w : Workspace) (holder : Holder) : l.store.run? run = some r →
      r.status = .pending → l.store.workspace? q.workspace.id = some w → w.lock = some holder →
      holder ≠ .run run → Tried q l run (.ok (), q, l)
  | admitted (r : Run) (w : Workspace) : l.store.run? run = some r → r.status = .pending →
      q.workspace.isUserLocked = false → l.store.workspace? q.workspace.id = some w →
      w.lock = none ∨ w.lock = some (.run run) →
      Tried q l run (.ok (), q.seeing (w.admitted run), l.accept w r)

theorem launch_apply {w : Workspace} {r : Run} (hr : l.store.run? r.id = some r)
    (hp : r.status = .pending) (hw : l.store.workspace? w.id = some w)
    (q : Queue) :
    let w₁ : Workspace := { w with lock := some (.run r.id) }
    launch Backend.services r.id (q.seeing w₁, l.putWorkspace .workspaceLocked w₁) =
      (.ok (), (q.seeing (w.admitted r.id), l.accept w r)) := by
  intro w₁
  have he : Service.enqueuePlan r.id (l.putWorkspace .workspaceLocked w₁) =
      (.ok (r.queued l.clock), (l.putWorkspace .workspaceLocked w₁).putRun (r.queued l.clock)) := by
    have hr₁ : (l.putWorkspace .workspaceLocked w₁).store.run? r.id = some r := hr
    rw [Service.enqueuePlan_apply, hr₁]
    simp only [hp, if_true]
    rfl
  have hw₁ : ((l.putWorkspace .workspaceLocked w₁).putRun (r.queued l.clock)).store.workspace?
      w.id = some w₁ := Ledger.workspace?_putWorkspace hw .workspaceLocked _ rfl
  unfold launch
  rw [Backend.services_enqueuePlan, bind_ok (call_apply he _), bind_ok (self_apply _ _)]
  rw [seeing_workspace]
  by_cases hc : w.currentRun = some r.id
  · have hww : w.admitted r.id = w₁ := by rw [Workspace.admitted, ← hc]
    rw [if_pos hc, hww, Ledger.accept, if_pos hc]
    rfl
  · have hs := Service.setCurrentRun_apply w.id r.id
      ((l.putWorkspace .workspaceLocked w₁).putRun (r.queued l.clock))
    rw [hw₁] at hs
    rw [if_neg hc, Backend.services_setCurrentRun, bind_ok (call_apply hs _), see_apply, Ledger.accept,
      if_neg hc]
    rfl

/-- **What an attempt to admit a run comes to.** -/
theorem schedule_tried (q : Queue) (l : Ledger) (run : String) :
    Tried q l run (schedule Backend.services run (q, l)) := by
  have hg := Service.getRun_apply run l
  unfold schedule
  rw [Backend.services_getRun]
  rcases hr : l.store.run? run with _ | r
  · rw [hr] at hg
    rw [bind_error (call_apply hg q)]
    exact .gone hr
  rw [hr] at hg
  rw [bind_ok (call_apply hg q)]
  obtain rfl := Store.run?_id hr
  by_cases hp : r.status = .pending
  swap
  · rw [if_pos hp]
    exact .past r hr hp
  rw [if_neg (not_not_intro hp), bind_ok (self_apply q l)]
  split_ifs with hu
  · exact .heldCopy r hr hp hu
  rw [Backend.services_lockWorkspace]
  have hl := Service.lockWorkspace_apply q.workspace.id (.run r.id) l
  rcases hw : l.store.workspace? q.workspace.id with _ | w
  · rw [hw] at hl
    rw [bind_ok (attempt_apply (call_apply hl q))]
    exact .unhoused r hr hp hw
  · rw [hw] at hl
    obtain ⟨hlock, ha⟩ | ⟨holder, hlock, hne, ha⟩ := w.acquire_run r.id
    · simp only [ha] at hl
      rw [bind_ok (attempt_apply (call_apply hl q))]
      dsimp only
      rw [bind_ok (see_apply _ _ _), launch_apply hr hp (Store.workspace?_id hw ▸ hw)]
      exact .admitted r w hr hp (by simpa using hu) hw hlock
    · simp only [ha] at hl
      rw [bind_ok (attempt_apply (call_apply hl q))]
      exact .held r w holder hr hp hw hlock hne

/-! ## Release -/

/-- **A run gives the lock back** if it holds it; nothing happens otherwise. -/
theorem unlock_apply (q : Queue) (l : Ledger) (run : String) :
    (∃ w, l.store.workspace? q.workspace.id = some w ∧ w.lock = some (.run run) ∧
        unlock Backend.services run (q, l) =
          (.ok (), (q.seeing { w with lock := none }, l.release w))) ∨
      ((∀ w, l.store.workspace? q.workspace.id = some w → w.lock ≠ some (.run run)) ∧
        unlock Backend.services run (q, l) = (.ok (), (q, l))) := by
  have hu := Service.unlockWorkspace_apply q.workspace.id (.run run) false l
  unfold unlock
  rw [bind_ok (self_apply q l), Backend.services_unlockWorkspace]
  rcases hw : l.store.workspace? q.workspace.id with _ | w
  · rw [hw] at hu
    rw [bind_ok (attempt_apply (call_apply hu q))]
    exact .inr ⟨(fun _ h => by cases h), rfl⟩
  · rw [hw] at hu
    obtain ⟨hlock, ha⟩ | ⟨hlock, e, hpre, ha⟩ := w.release_run run
    · simp only [ha] at hu
      refine .inl ⟨w, rfl, hlock, ?_⟩
      rw [bind_ok (attempt_apply (call_apply hu q))]
      rfl
    · simp only [ha] at hu
      refine .inr ⟨fun v hv => ?_, ?_⟩
      · obtain rfl := Option.some.inj hv
        exact hlock
      · rw [bind_ok (attempt_apply (call_apply hu q))]
        simp only [hpre, if_true]
        rfl

end Queue

end Provision
