import Provision.Proofs.Run.Path
import Provision.Run.Basic

/-!
# What an action does to a run

`Run.Outcome` lists what a run can look like after an action that was not refused, with the status
that admits it; everything said about runs after any history is read off this list. A history is a
list of attempts, and a refused attempt leaves the run as it is.

* `Run.outcome_of_perform`: the list is complete.
* `Run.after_induction`: what holds of a new run and is kept by every outcome holds after any history.
-/

namespace Provision

/-- The status of a run whose phase is queued. -/
def PhaseKind.queued : PhaseKind → RunStatus
  | .plan => .planQueued
  | .apply => .applyQueued

/-- The status of a run whose phase is executed. -/
def PhaseKind.executing : PhaseKind → RunStatus
  | .plan => .planning
  | .apply => .applying

namespace Run

/-- What a run looks like after an action that was not refused. -/
inductive Outcome (r : Run) (now later : Instant) : Action → Run → Prop
  | enqueuePlan : r.status = .pending →
      Outcome r now later .enqueuePlan ((r.enter .planQueued now).enterPlan .queued now)
  | enqueueApply : r.status = .planned →
      Outcome r now later .enqueueApply ((r.enter .applyQueued now).enterApply .queued now)
  | startPlan (agent : String) : r.status = .planQueued →
      Outcome r now later (.start .plan agent)
        { (r.enter .planning now) with
          plan := { r.plan.enter .running now with claimedBy := some agent } }
  | startApply (agent : String) : r.status = .applyQueued →
      Outcome r now later (.start .apply agent)
        { (r.enter .applying now) with
          apply := { r.apply.enter .running now with claimedBy := some agent } }
  | late (kind : PhaseKind) (result : PhaseResult) :
      r.status = .canceled ∨ r.status = .forceCanceled ∨ r.status = .discarded →
      Outcome r now later (.finish kind result) r
  | planErrored (result : PhaseResult) : r.status = .planning →
      Outcome r now later (.finish .plan result)
        (((r.enter .errored now).enterPlan .errored now).enterApply .unreachable now)
  | planEnded (result : PhaseResult) (report : Report) : r.status = .planning →
      Outcome r now later (.finish .plan result)
        (({ r with plan := { r.plan.enter .finished now with report := some report } }.enter
          .plannedAndFinished now).enterApply .unreachable now)
  | planned (result : PhaseResult) (report : Report) : r.status = .planning →
      Outcome r now later (.finish .plan result)
        ({ r with plan := { r.plan.enter .finished now with report := some report } }.enter
          .planned now)
  | confirmed (result : PhaseResult) (report : Report) : r.status = .planning →
      Outcome r now later (.finish .plan result)
        ((({ r with plan := { r.plan.enter .finished now with report := some report } }.enter
          .planned now).enter .applyQueued later).enterApply .queued later)
  | applyErrored (result : PhaseResult) : r.status = .applying →
      Outcome r now later (.finish .apply result)
        ((r.enter .errored now).enterApply .errored now)
  | applied (result : PhaseResult) : r.status = .applying →
      Outcome r now later (.finish .apply result)
        { (r.enter .applied now) with
          apply := { r.apply.enter .finished now with report := result.report } }
  | canceled : r.isDone = false →
      Outcome r now later .cancel
        { ((r.abandonPhases now).enter .canceled now) with
          forceCancelFrom := some (now.addSeconds coolOff) }
  | forceCanceled (available : Instant) : r.status = .canceled → r.forceCancelFrom = some available →
      available < now → Outcome r now later .forceCancel (r.enter .forceCanceled now)
  | discardedEarly : r.status = .pending →
      Outcome r now later .discard
        (((r.enterPlan .unreachable now).enterApply .unreachable now).enter .discarded now)
  | discardedLate : r.status = .planned →
      Outcome r now later .discard ((r.enterApply .unreachable now).enter .discarded now)
  | setAutoApply (value : Bool) :
      Outcome r now later (.setAutoApply value) { r with autoApply := value }

section Complete

variable {r r' : Run} {now later : Instant}

theorem Outcome.start_queued {kind : PhaseKind} {agent : String}
    (h : r.Outcome now later (.start kind agent) r') :
    r.status = kind.queued ∧ r'.status = kind.executing := by
  cases h with
  | startPlan _ hs => exact ⟨hs, rfl⟩
  | startApply _ hs => exact ⟨hs, rfl⟩

theorem ok_of_map {α β ε : Type} {f : α → β} {x : Except ε α} {b : β} (h : x.map f = .ok b) :
    ∃ a, x = .ok a ∧ f a = b := by
  cases x with
  | error e => cases h
  | ok a => exact ⟨a, rfl, Except.ok.inj h⟩

theorem outcome_of_enqueuePlan (h : r.enqueuePlan now = .ok r') :
    Outcome r now later .enqueuePlan r' := by
  unfold enqueuePlan at h
  split_ifs at h with hs
  cases h
  exact .enqueuePlan hs

theorem outcome_of_enqueueApply (h : r.enqueueApply now = .ok r') :
    Outcome r now later .enqueueApply r' := by
  unfold enqueueApply at h
  split_ifs at h with hs
  cases h
  exact .enqueueApply hs

theorem outcome_of_start {kind : PhaseKind} {agent : String} (h : r.start kind agent now = .ok r') :
    Outcome r now later (.start kind agent) r' := by
  unfold start at h
  split at h
  · next hs => cases h; exact .startPlan agent hs
  · next hs => cases h; exact .startApply agent hs
  all_goals cases h

theorem outcome_of_finishPlan {result : PhaseResult} (hr : r.status = .planning)
    (h : r.finishPlan result now later = .ok r') :
    Outcome r now later (.finish .plan result) r' := by
  unfold finishPlan at h
  by_cases he : result.errored = true
  · rw [if_pos he] at h
    cases h
    exact .planErrored result hr
  rw [if_neg he] at h
  dsimp only at h
  split_ifs at h with hc ha
  · cases h
    exact .planEnded result _ hr
  · cases h
    exact .confirmed result _ hr
  · cases h
    exact .planned result _ hr

theorem outcome_of_finishApply {result : PhaseResult} (hr : r.status = .applying)
    (h : r.finishApply result now = .ok r') :
    Outcome r now later (.finish .apply result) r' := by
  unfold finishApply at h
  split_ifs at h with he
  · cases h
    exact .applyErrored result hr
  · cases h
    exact .applied result hr

theorem outcome_of_finish {kind : PhaseKind} {result : PhaseResult}
    (h : r.finish kind result now later = .ok r') :
    Outcome r now later (.finish kind result) r' := by
  unfold finish at h
  split at h
  · next hs => cases h; exact .late _ result (.inl hs)
  · next hs => cases h; exact .late _ result (.inr (.inl hs))
  · next hs => cases h; exact .late _ result (.inr (.inr hs))
  · next hs => exact outcome_of_finishPlan hs h
  · next hs => exact outcome_of_finishApply hs h
  · cases h

theorem outcome_of_cancel {flag : Bool} (h : r.cancel now = .ok (r', flag)) :
    Outcome r now later .cancel r' := by
  unfold cancel at h
  split_ifs at h with hs
  cases h
  exact .canceled (by simpa using hs)

theorem outcome_of_forceCancelAt (h : r.forceCancelAt now = .ok r') :
    Outcome r now later .forceCancel r' := by
  unfold forceCancelAt at h
  split at h
  · next available hf =>
    split_ifs at h with hc
    cases h
    exact .forceCanceled available hc.1 hf hc.2
  · cases h

theorem outcome_of_discard (h : r.discard now = .ok r') : Outcome r now later .discard r' := by
  unfold discard at h
  split at h
  · next hs => cases h; exact .discardedEarly hs
  · next hs => cases h; exact .discardedLate hs
  · cases h

/-- **The list of outcomes is complete.** -/
theorem outcome_of_perform {action : Action} {flag : Option Bool}
    (h : r.perform action now later = .ok (r', flag)) : Outcome r now later action r' := by
  cases action with
  | enqueuePlan =>
    obtain ⟨r₁, h₁, h₂⟩ := ok_of_map h
    cases h₂
    exact outcome_of_enqueuePlan h₁
  | enqueueApply =>
    obtain ⟨r₁, h₁, h₂⟩ := ok_of_map h
    cases h₂
    exact outcome_of_enqueueApply h₁
  | start kind agent =>
    obtain ⟨r₁, h₁, h₂⟩ := ok_of_map h
    cases h₂
    exact outcome_of_start h₁
  | finish kind result =>
    obtain ⟨r₁, h₁, h₂⟩ := ok_of_map h
    cases h₂
    exact outcome_of_finish h₁
  | cancel =>
    obtain ⟨r₁, h₁, h₂⟩ := ok_of_map h
    cases h₂
    exact outcome_of_cancel h₁
  | forceCancel =>
    obtain ⟨r₁, h₁, h₂⟩ := ok_of_map h
    cases h₂
    exact outcome_of_forceCancelAt h₁
  | discard =>
    obtain ⟨r₁, h₁, h₂⟩ := ok_of_map h
    cases h₂
    exact outcome_of_discard h₁
  | setAutoApply value =>
    cases h
    exact .setAutoApply value

end Complete

/-! ## Histories -/

/-- An action that somebody attempts, with the two readings of the clock it may take. -/
structure Attempt where
  action : Action
  /-- The reading of the clock. -/
  now : Instant
  /-- The reading for an automatic confirmation. -/
  later : Instant

/-- The run after an attempt, which may be refused. -/
def attempt (r : Run) (a : Attempt) : Run :=
  match r.perform a.action a.now a.later with
  | .ok (r', _) => r'
  | .error _ => r

/-- The run after a history of attempts. -/
def after (r : Run) (history : List Attempt) : Run :=
  history.foldl attempt r

theorem attempt_cases (r : Run) (a : Attempt) :
    r.attempt a = r ∨ Outcome r a.now a.later a.action (r.attempt a) := by
  unfold attempt
  split
  · next r' flag h => exact .inr (outcome_of_perform h)
  · exact .inl rfl

/-- **Induction over a history**: what every outcome keeps is kept by any history. -/
theorem after_induction {P : Run → Prop}
    (step : ∀ r r' now later action, P r → Outcome r now later action r' → P r')
    {r : Run} (h : P r) (history : List Attempt) : P (r.after history) := by
  induction history generalizing r with
  | nil => exact h
  | cons a rest ih =>
    refine ih (r := r.attempt a) ?_
    obtain he | ho := attempt_cases r a
    · rw [he]
      exact h
    · exact step r _ _ _ _ h ho

end Run

end Provision
