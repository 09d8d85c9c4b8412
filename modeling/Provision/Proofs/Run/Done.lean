import Provision.Proofs.Run.Course

/-!
# Runs that are done

A run that is done is still acted upon, and some of the actions are accepted: the result of an agent
that had not heard of a cancel yet, and a forced cancel after the cool-off.

* `Run.Outcome.of_isDone`: what an action can make of a run that is done.
* **`Run.frozen_after`**: whatever is attempted, the record stays as it is, except that a canceled run
  may become a force-canceled one. Results that arrive make no difference.
-/

namespace Provision

/-- The action reports how a phase ended. -/
def Action.isResult : Action → Bool
  | .finish .. => true
  | _ => false

/-- What the action sets `autoApply` to. -/
def Action.setting? : Action → Option Bool
  | .setAutoApply value => some value
  | _ => none

namespace Run

/-- What a history of attempts leaves of a flag that `setAutoApply` sets. -/
def settingAfter (flag : Bool) (history : List Attempt) : Bool :=
  (history.filterMap fun a => a.action.setting?).getLastD flag

/-- The attempt is a forced cancel after the cool-off of the run. -/
def Attempt.Forces (a : Attempt) (r : Run) : Prop :=
  a.action = .forceCancel ∧ ∃ available, r.forceCancelFrom = some available ∧ available < a.now

section Step

variable {r r' : Run} {now later : Instant} {action : Action}

/-- **What an action can make of a run that is done.** -/
theorem Outcome.of_isDone (hd : r.isDone = true) (ho : Outcome r now later action r') :
    (r' = r ∧ action.setting? = none) ∨
      (∃ value, action = .setAutoApply value ∧ r' = { r with autoApply := value }) ∨
      r.status = .canceled ∧ Attempt.Forces ⟨action, now, later⟩ r ∧ r' = r.enter .forceCanceled now := by
  have hopen : ∀ {s : RunStatus}, r.status = s → s.isDone = true := fun hs => hs ▸ hd
  cases ho with
  | late kind result _ => exact .inl ⟨rfl, rfl⟩
  | setAutoApply value => exact .inr (.inl ⟨value, rfl, rfl⟩)
  | forceCanceled available hs ha hlt => exact .inr (.inr ⟨hs, ⟨rfl, available, ha, hlt⟩, rfl⟩)
  | canceled hn => exact absurd (hd.symm.trans hn) nofun
  -- every other action needs a status that is not done
  | enqueuePlan hs | enqueueApply hs | discardedEarly hs | discardedLate hs => cases hopen hs
  | startPlan _ hs | startApply _ hs | planErrored _ hs | applyErrored _ hs | applied _ hs =>
    cases hopen hs
  | planEnded _ _ hs | planned _ _ hs | confirmed _ _ hs => cases hopen hs

theorem attempt_of_isDone (hd : r.isDone = true) (a : Attempt) :
    (r.attempt a = r ∧ a.action.setting? = none) ∨
      (∃ value, a.action = .setAutoApply value ∧ r.attempt a = { r with autoApply := value }) ∨
      r.status = .canceled ∧ a.Forces r ∧ r.attempt a = r.enter .forceCanceled a.now := by
  obtain ⟨action, now, later⟩ := a
  by_cases hs : action.setting? = none
  · rcases attempt_cases r ⟨action, now, later⟩ with he | ho
    · exact .inl ⟨he, hs⟩
    · exact ho.of_isDone hd
  · cases action with
    | setAutoApply value => exact .inr (.inl ⟨value, rfl, rfl⟩)
    | enqueuePlan | enqueueApply | start | finish | cancel | forceCancel | discard =>
      exact absurd rfl hs

theorem attempt_result (hd : r.isDone = true) {a : Attempt} (ha : a.action.isResult = true) :
    r.attempt a = r := by
  rcases attempt_of_isDone hd a with ⟨he, -⟩ | ⟨value, hs, -⟩ | ⟨-, ⟨hf, -⟩, -⟩
  · exact he
  · rw [hs] at ha
    cases ha
  · rw [hf] at ha
    cases ha

end Step

/-! ## After any history -/

/-- The second run is the first one after a history of attempts, apart from a forced cancel. -/
def Sealed (r : Run) (history : List Attempt) (r' : Run) : Prop :=
  r' = { r with autoApply := settingAfter r.autoApply history } ∨
    r.status = .canceled ∧ ∃ a ∈ history, a.Forces r ∧
      r' = { r.enter .forceCanceled a.now with autoApply := settingAfter r.autoApply history }

section History

variable {r : Run} {a : Attempt} {history : List Attempt}

theorem settingAfter_cons_none {flag : Bool} (h : a.action.setting? = none) :
    settingAfter flag (a :: history) = settingAfter flag history := by
  unfold settingAfter
  rw [List.filterMap_cons_none (f := fun a : Attempt => a.action.setting?) h]

theorem settingAfter_cons_some {flag value : Bool} (h : a.action.setting? = some value) :
    settingAfter flag (a :: history) = settingAfter value history := by
  unfold settingAfter
  rw [List.filterMap_cons_some (f := fun a : Attempt => a.action.setting?) h, List.getLastD_cons]

/-- **A run that is done is sealed**, whatever is attempted. -/
theorem sealed_after (hd : r.isDone = true) (history : List Attempt) :
    r.Sealed history (r.after history) := by
  induction history generalizing r with
  | nil => exact .inl rfl
  | cons a rest ih =>
    change r.Sealed (a :: rest) ((r.attempt a).after rest)
    rcases attempt_of_isDone hd a with ⟨he, hs⟩ | ⟨value, ha, he⟩ | ⟨hc, hf, he⟩
    · rw [he]
      unfold Sealed
      rw [settingAfter_cons_none hs]
      rcases ih hd with h | ⟨hc, b, hb, hf, h⟩
      · exact .inl h
      · exact .inr ⟨hc, b, List.mem_cons_of_mem a hb, hf, h⟩
    · have hs : a.action.setting? = some value := by
        rw [ha]
        rfl
      rw [he]
      unfold Sealed
      rw [settingAfter_cons_some hs]
      rcases ih (r := { r with autoApply := value }) hd with h | ⟨hc, b, hb, hf, h⟩
      · exact .inl h
      · exact .inr ⟨hc, b, List.mem_cons_of_mem a hb, hf, h⟩
    · have hs : a.action.setting? = none := by
        rw [hf.1]
        rfl
      rw [he]
      unfold Sealed
      rw [settingAfter_cons_none hs]
      -- a force-canceled run is not forced again
      rcases ih (r := r.enter .forceCanceled a.now) rfl with h | ⟨hc', -⟩
      · exact .inr ⟨hc, a, List.mem_cons_self, hf, h⟩
      · cases hc'

theorem settingAfter_eq (flag : Bool) (h : ∀ a ∈ history, a.action.setting? = none) :
    settingAfter flag history = flag := by
  unfold settingAfter
  rw [List.filterMap_eq_nil_iff.mpr h]
  rfl

theorem Sealed.isDone {r' : Run} (h : r.Sealed history r') (hd : r.isDone = true) :
    r'.isDone = true := by
  rcases h with rfl | ⟨-, a, -, -, rfl⟩
  · exact hd
  · rfl

/-- **Results make no difference** once a run is done. -/
theorem after_filter_results (hd : r.isDone = true) (history : List Attempt) :
    r.after (history.filter fun a => !a.action.isResult) = r.after history := by
  induction history generalizing r with
  | nil => rfl
  | cons a rest ih =>
    have hd' : (r.attempt a).isDone = true := (sealed_after hd [a]).isDone hd
    cases ha : a.action.isResult with
    | true =>
      rw [List.filter_cons_of_neg (by simp [ha])]
      change _ = (r.attempt a).after rest
      rw [attempt_result hd ha]
      exact ih hd
    | false =>
      rw [List.filter_cons_of_pos (by simp [ha])]
      exact ih hd'

end History

/-- **A run that is done is frozen.** Whatever is attempted on it, it stays done, and its record stays as
it is, phases, reports, claims and logs included; only a canceled run may be force-canceled, which sets
the status and appends one entry to the log. The one thing that may still be set is a flag that nothing
reads any more. The record is the one without any results that arrived, before or after a forced
cancel. -/
theorem frozen_after (r : Run) (hd : r.isDone = true) (history : List Attempt) :
    (r.after history).isDone = true ∧
      (r.after history = { r with autoApply := settingAfter r.autoApply history } ∨
        r.status = .canceled ∧ ∃ a ∈ history, a.Forces r ∧
          r.after history = { r with
            status := .forceCanceled
            log := r.log ++ [⟨.forceCanceled, a.now⟩]
            autoApply := settingAfter r.autoApply history }) ∧
      ((∀ a ∈ history, a.action.setting? = none) → r.after history = r ∨
        r.status = .canceled ∧ ∃ a ∈ history, a.Forces r ∧
          r.after history = { r with
            status := .forceCanceled
            log := r.log ++ [⟨.forceCanceled, a.now⟩] }) ∧
      r.after history = r.after (history.filter fun a => !a.action.isResult) := by
  have hs := sealed_after hd history
  refine ⟨hs.isDone hd, hs, fun hn => ?_, (after_filter_results hd history).symm⟩
  unfold Sealed at hs
  rw [settingAfter_eq r.autoApply hn] at hs
  exact hs

/-- A run is canceled while its plan is executed; the plan's result arrives before the forced cancel and
again after it. -/
theorem frozen_after_canceledPlan :
    let at' (second : ℤ) : Instant := ⟨second, 0⟩
    let r := (Run.new 1 {} (at' 0)).after [⟨.enqueuePlan, at' 1, at' 1⟩,
      ⟨.start .plan "agent-1", at' 2, at' 2⟩, ⟨.cancel, at' 3, at' 3⟩]
    let late : Attempt := ⟨.finish .plan ⟨false, some ⟨1, 0, 0⟩⟩, at' 4, at' 4⟩
    let history := [late, ⟨.forceCancel, at' 20, at' 20⟩, late]
    r.isDone = true ∧ (r.after history).isDone = true ∧
      r.after history = r.after [⟨.forceCancel, at' 20, at' 20⟩] ∧
      (r.after history).log = r.log ++ [⟨.forceCanceled, at' 20⟩] ∧ r.plan.report = none := by
  intro at' r late history
  obtain ⟨hdone, -, -, hresults⟩ := frozen_after r (by decide) history
  exact ⟨by decide, hdone, hresults, by decide, by decide⟩

end Run

end Provision
