import Provision.Proofs.Run.Outcome

/-!
# The course of a run

* `Run.Precedes x r`: `r` may be a later state of `x`. It is the same run, it is done if `x` is, and
  it has begun if `x` has.
* `Run.Outcome.precedes`: every action leads to a later state.
* `Run.Outcome.active`: only queueing the plan makes a run active.
-/

namespace Provision

namespace RunStatus

theorem not_pending_of_isDone {s : RunStatus} (h : s.isDone = true) : s ≠ .pending := by
  rintro rfl
  cases h

end RunStatus

namespace Run

/-- The second may be a later state of the first. -/
structure Precedes (x r : Run) : Prop where
  id : r.id = x.id
  workspace : r.workspace = x.workspace
  organization : r.organization = x.organization
  /-- Both are speculative, or none. -/
  speculative : r.speculative = x.speculative
  /-- What is done stays done. -/
  done : x.isDone = true → r.isDone = true
  /-- What has begun is never pending again. -/
  begun : x.status ≠ .pending → r.status ≠ .pending

theorem Precedes.refl (r : Run) : r.Precedes r :=
  ⟨rfl, rfl, rfl, rfl, fun h => h, fun h => h⟩

theorem Precedes.trans {x r r' : Run} (h : x.Precedes r) (h' : r.Precedes r') : x.Precedes r' where
  id := h'.id.trans h.id
  workspace := h'.workspace.trans h.workspace
  organization := h'.organization.trans h.organization
  speculative := h'.speculative.trans h.speculative
  done hx := h'.done (h.done hx)
  begun hx := h'.begun (h.begun hx)

theorem isActive_iff (r : Run) : r.isActive = true ↔ r.speculative = false ∧
    r.status ≠ .pending ∧ r.isDone = false := by
  unfold isActive isDone
  cases r.speculative <;> cases r.status <;> decide

theorem precedes_of_status {x r : Run} (hid : r.id = x.id) (hw : r.workspace = x.workspace)
    (ho : r.organization = x.organization) (hs : r.speculative = x.speculative)
    (hd : x.isDone = true → r.isDone = true) (hb : r.status ≠ .pending) : x.Precedes r :=
  ⟨hid, hw, ho, hs, hd, fun _ => hb⟩

theorem abandonPhases_eq (r : Run) (now : Instant) :
    ∃ plan apply : Phase, r.abandonPhases now = { r with plan, apply } := by
  unfold abandonPhases
  split
  all_goals exact ⟨_, _, rfl⟩

namespace Outcome

variable {r r' : Run} {now later : Instant} {action : Action}

/-- **Every action leads to a later state.** -/
theorem precedes (h : Outcome r now later action r') : r.Precedes r' := by
  have hopen : ∀ {s : RunStatus}, r.status = s → s.isDone = false → ∀ b : Bool,
      r.isDone = true → b = true := by
    intro s hs hd b hr
    rw [isDone, hs, hd] at hr
    cases hr
  cases h with
  | enqueuePlan hs =>
    exact precedes_of_status rfl rfl rfl rfl (hopen hs rfl _) (by simp [enter, enterPlan])
  | enqueueApply hs =>
    exact precedes_of_status rfl rfl rfl rfl (hopen hs rfl _) (by simp [enter, enterApply])
  | startPlan agent hs =>
    exact precedes_of_status rfl rfl rfl rfl (hopen hs rfl _) (by simp [enter])
  | startApply agent hs =>
    exact precedes_of_status rfl rfl rfl rfl (hopen hs rfl _) (by simp [enter])
  | late => exact .refl r
  | planErrored result hs =>
    exact precedes_of_status rfl rfl rfl rfl (hopen hs rfl _) (by simp [enter, enterPlan, enterApply])
  | planEnded result report hs =>
    exact precedes_of_status rfl rfl rfl rfl (hopen hs rfl _) (by simp [enter, enterApply])
  | planned result report hs =>
    exact precedes_of_status rfl rfl rfl rfl (hopen hs rfl _) (by simp [enter])
  | confirmed result report hs =>
    exact precedes_of_status rfl rfl rfl rfl (hopen hs rfl _) (by simp [enter, enterApply])
  | applyErrored result hs =>
    exact precedes_of_status rfl rfl rfl rfl (hopen hs rfl _) (by simp [enter, enterApply])
  | applied result hs =>
    exact precedes_of_status rfl rfl rfl rfl (hopen hs rfl _) (by simp [enter])
  | canceled hs =>
    obtain ⟨plan, apply, he⟩ := r.abandonPhases_eq now
    rw [he]
    exact precedes_of_status rfl rfl rfl rfl (fun _ => rfl) (by simp [enter])
  | forceCanceled available hs =>
    exact precedes_of_status rfl rfl rfl rfl (fun _ => rfl) (by simp [enter])
  | discardedEarly hs =>
    exact precedes_of_status rfl rfl rfl rfl (fun _ => rfl) (by simp [enter, enterPlan, enterApply])
  | discardedLate hs =>
    exact precedes_of_status rfl rfl rfl rfl (fun _ => rfl) (by simp [enter, enterApply])
  | setAutoApply value => exact ⟨rfl, rfl, rfl, rfl, fun h => h, fun h => h⟩

/-- **Only queueing the plan makes a run active.** -/
theorem active (h : Outcome r now later action r') (ha : action ≠ .enqueuePlan)
    (hr' : r'.isActive = true) : r.isActive = true := by
  have hs : r.speculative = false := h.precedes.speculative ▸ ((isActive_iff r').mp hr').1
  have hopen : ∀ {s : RunStatus}, r.status = s → s.isActive = true → r.isActive = true := by
    intro s hst hact
    rw [isActive, hs, hst, hact]
    rfl
  have hdone : r'.isDone = true → r.isActive = true := by
    intro hd
    rw [((isActive_iff r').mp hr').2.2] at hd
    cases hd
  cases h with
  | enqueuePlan hs => exact absurd rfl ha
  | enqueueApply hs => exact hopen hs rfl
  | startPlan agent hs => exact hopen hs rfl
  | startApply agent hs => exact hopen hs rfl
  | late => exact hr'
  | planErrored result hs => exact hopen hs rfl
  | planEnded result report hs => exact hopen hs rfl
  | planned result report hs => exact hopen hs rfl
  | confirmed result report hs => exact hopen hs rfl
  | applyErrored result hs => exact hopen hs rfl
  | applied result hs => exact hopen hs rfl
  | canceled hs => exact hdone rfl
  | forceCanceled available hs => exact hdone rfl
  | discardedEarly hs => exact hdone rfl
  | discardedLate hs => exact hopen hs rfl
  | setAutoApply value => exact hr'

end Outcome

end Run

end Provision
