import Provision.Proofs.Effect
import Provision.Proofs.Run.Course
import Provision.Proofs.Run.History

/-!
# Actions in place

Where runs are stored, an action is a sequence of writes to the run itself: the phases are written
before the status or after it, and every change of the status is checked against the chart when its
turn comes. `Run.Edit` is such a sequence, and nothing undoes what one wrote before it was refused.

* `Edit.perform`: the actions as sequences of writes, in the order in which they are made.
* `Edit.perform_eq`: such a sequence does to the run what `Run.perform` says, and a refused one has
  written nothing, because the check that comes first implies all later ones.
* `Run.Permits`, `Run.blame`: which actions a status permits, and why another one is refused.
* **`Run.permits_exactly`**: both tables are exact.
-/

namespace Provision

/-- The name of an action in its refusals. -/
def Action.name : Action → String
  | .enqueuePlan => "enqueue_plan"
  | .enqueueApply => "enqueue_apply"
  | .start .. => "start"
  | .finish .. => "finish"
  | .cancel => "cancel"
  | .forceCancel => "force_cancel"
  | .discard => "discard"
  | .setAutoApply _ => "set_auto_apply"

namespace Run

/-- The run was canceled, perhaps by force, or discarded. -/
def IsWithdrawn (r : Run) : Prop :=
  r.status = .canceled ∨ r.status = .forceCanceled ∨ r.status = .discarded

instance (r : Run) : Decidable r.IsWithdrawn :=
  inferInstanceAs (Decidable (_ ∨ _ ∨ _))

/-- A sequence of writes to a run. What it wrote before a refusal stays written. -/
abbrev Edit (α : Type) : Type :=
  ExceptT Error (StateM Run) α

/-! ## The actions as sequences of writes -/

namespace Edit

/-- Refuse an action because of the status at this point. -/
def refuse {α : Type} (action : String) : Edit α := do
  throw ((← get).refusal action)

/-- Enter a status, which the chart must permit. -/
def enter (action : String) (next : RunStatus) (now : Instant) : Edit Unit := do
  let r ← get
  if r.status.leadsTo next then set (r.enter next now) else refuse action

/-- Queue the plan of a pending run. -/
def enqueuePlan (now : Instant) : Edit Unit := do
  if (← get).status = .pending then
    enter "enqueue_plan" .planQueued now
    modify (·.enterPlan .queued now)
  else refuse "enqueue_plan"

/-- Queue the apply of a planned run. -/
def enqueueApply (now : Instant) : Edit Unit := do
  if (← get).status = .planned then
    enter "enqueue_apply" .applyQueued now
    modify (·.enterApply .queued now)
  else refuse "enqueue_apply"

/-- Write to a phase that an agent executes it. -/
def claim (kind : PhaseKind) (agent : String) (now : Instant) : Edit Unit :=
  match kind with
  | .plan => do
    modify (·.enterPlan .running now)
    modify fun r => { r with plan := { r.plan with claimedBy := some agent } }
  | .apply => do
    modify (·.enterApply .running now)
    modify fun r => { r with apply := { r.apply with claimedBy := some agent } }

/-- Claim a queued phase for an agent. -/
def start (kind : PhaseKind) (agent : String) (now : Instant) : Edit Unit := do
  let r ← get
  if r.status = kind.queued then
    enter "start" kind.executing now
    claim kind agent now
  else if r.status = kind.executing then throw (.phaseAlreadyClaimed r.id kind.name)
  else refuse "start"

/-- Record that the plan ended. The report is written before the status is changed, and a confirmed
run is changed twice. -/
def finishPlan (result : PhaseResult) (now later : Instant) : Edit Unit := do
  if result.errored then
    enter "finish" .errored now
    modify (·.enterPlan .errored now)
    modify (·.enterApply .unreachable now)
  else
    let report := result.report.getD Report.empty
    modify fun r => { r with plan := { r.plan with report := some report } }
    modify (·.enterPlan .finished now)
    if !report.hasChanges || (← get).speculative then
      enter "finish" .plannedAndFinished now
      modify (·.enterApply .unreachable now)
    else
      enter "finish" .planned now
      if (← get).autoApply then enqueueApply later

/-- Record that the apply ended. -/
def finishApply (result : PhaseResult) (now : Instant) : Edit Unit := do
  if result.errored then
    enter "finish" .errored now
    modify (·.enterApply .errored now)
  else
    modify fun r => { r with apply := { r.apply with report := result.report } }
    enter "finish" .applied now
    modify (·.enterApply .finished now)

/-- Record how an executing phase ended. -/
def finish (kind : PhaseKind) (result : PhaseResult) (now later : Instant) : Edit Unit := do
  let r ← get
  if r.IsWithdrawn then return ()
  else if r.status = kind.executing then
    match kind with
    | .plan => finishPlan result now later
    | .apply => finishApply result now
  else refuse "finish"

/-- Cancel a run that is not done. The phases are given up before the status is changed. -/
def cancel (now : Instant) : Edit Bool := do
  let r ← get
  if r.isDone then refuse "cancel"
  else
    modify (·.abandonPhases now)
    enter "cancel" .canceled now
    modify fun r => { r with forceCancelFrom := some (now.addSeconds coolOff) }
    return r.status.isExecuting

/-- Terminate a canceled run by force. -/
def forceCancelAt (now : Instant) : Edit Unit := do
  let r ← get
  match r.forceCancelFrom with
  | some available =>
    if r.status = .canceled ∧ available < now then enter "force_cancel" .forceCanceled now
    else refuse "force_cancel"
  | none => refuse "force_cancel"

/-- Give up a run that is pending or awaits confirmation. The phases are written first. -/
def discard (now : Instant) : Edit Unit := do
  let r ← get
  if r.status = .pending ∨ r.status = .planned then
    if r.status = .pending then modify (·.enterPlan .unreachable now)
    modify (·.enterApply .unreachable now)
    enter "discard" .discarded now
  else refuse "discard"

/-- Perform an action in place, with the flag of a cancel. -/
def perform (action : Action) (now later : Instant) : Edit (Option Bool) :=
  match action with
  | .enqueuePlan => do enqueuePlan now; return none
  | .enqueueApply => do enqueueApply now; return none
  | .start kind agent => do start kind agent now; return none
  | .finish kind result => do finish kind result now later; return none
  | .cancel => do return some (← cancel now)
  | .forceCancel => do forceCancelAt now; return none
  | .discard => do discard now; return none
  | .setAutoApply value => do
    modify fun r => { r with autoApply := value }
    return none

end Edit

/-! ## What the functions on runs return -/

section Cases

variable {r : Run} {kind : PhaseKind}

/-- The run after an agent claimed a phase. -/
def claimed (r : Run) (agent : String) (now : Instant) : PhaseKind → Run
  | .plan => { (r.enter .planning now) with
      plan := { r.plan.enter .running now with claimedBy := some agent } }
  | .apply => { (r.enter .applying now) with
      apply := { r.apply.enter .running now with claimedBy := some agent } }

theorem start_of_queued (hs : r.status = kind.queued) (agent : String) (now : Instant) :
    r.start kind agent now = .ok (r.claimed agent now kind) := by
  unfold start
  rw [hs]
  cases kind <;> rfl

theorem start_of_executing (hs : r.status = kind.executing) (agent : String) (now : Instant) :
    r.start kind agent now = .error (.phaseAlreadyClaimed r.id kind.name) := by
  unfold start
  rw [hs]
  cases kind <;> rfl

theorem start_of_ne (hq : r.status ≠ kind.queued) (he : r.status ≠ kind.executing) (agent : String)
    (now : Instant) : r.start kind agent now = .error (r.refusal "start") := by
  unfold start
  split
  · next hs => exact absurd hs hq
  · next hs => exact absurd hs hq
  · next hs => exact absurd hs he
  · next hs => exact absurd hs he
  · rfl

theorem finish_of_withdrawn (hw : r.IsWithdrawn) (kind : PhaseKind) (result : PhaseResult)
    (now later : Instant) : r.finish kind result now later = .ok r := by
  unfold finish
  obtain hs | hs | hs := hw
  all_goals rw [hs]

theorem finish_plan_of_planning (hs : r.status = .planning) (result : PhaseResult)
    (now later : Instant) : r.finish .plan result now later = r.finishPlan result now later := by
  unfold finish
  rw [hs]

theorem finish_apply_of_applying (hs : r.status = .applying) (result : PhaseResult)
    (now later : Instant) : r.finish .apply result now later = r.finishApply result now := by
  unfold finish
  rw [hs]

theorem finish_of_ne (hw : ¬ r.IsWithdrawn) (he : r.status ≠ kind.executing) (result : PhaseResult)
    (now later : Instant) : r.finish kind result now later = .error (r.refusal "finish") := by
  unfold finish
  split
  · next hs => exact absurd (.inl hs) hw
  · next hs => exact absurd (.inr (.inl hs)) hw
  · next hs => exact absurd (.inr (.inr hs)) hw
  · next hs => exact absurd hs he
  · next hs => exact absurd hs he
  · rfl

theorem discard_of_ne (hp : r.status ≠ .pending) (ha : r.status ≠ .planned) (now : Instant) :
    r.discard now = .error (r.refusal "discard") := by
  unfold discard
  split
  · next hs => exact absurd hs hp
  · next hs => exact absurd hs ha
  · rfl

end Cases

/-! ## In place and at once -/

/-- What an outcome leaves of a run: a refused action leaves it as it is. -/
def settle {α : Type} (r : Run) : Except Error (Run × α) → Except Error α × Run
  | .ok (r', a) => (.ok a, r')
  | .error e => (.error e, r)

namespace Edit

variable {r : Run}

theorem enter_ok {next : RunStatus} (action : String) (now : Instant)
    (h : r.status.leadsTo next = true) : enter action next now r = (.ok (), r.enter next now) := by
  change (if r.status.leadsTo next then set (r.enter next now) else refuse action : Edit Unit) r = _
  rw [if_pos h]
  rfl

theorem enqueuePlan_eq (r : Run) (now : Instant) :
    enqueuePlan now r = r.settle ((r.enqueuePlan now).map (·, ())) := by
  change (if r.status = .pending then _ else _ : Edit Unit) r = _
  unfold Run.enqueuePlan
  split_ifs with hs
  · exact Effect.bind_ok (enter_ok _ now (hs ▸ rfl))
  · rfl

theorem enqueueApply_eq (r : Run) (now : Instant) :
    enqueueApply now r = r.settle ((r.enqueueApply now).map (·, ())) := by
  change (if r.status = .planned then _ else _ : Edit Unit) r = _
  unfold Run.enqueueApply
  split_ifs with hs
  · exact Effect.bind_ok (enter_ok _ now (hs ▸ rfl))
  · rfl

theorem start_eq (r : Run) (kind : PhaseKind) (agent : String) (now : Instant) :
    start kind agent now r = r.settle ((r.start kind agent now).map (·, ())) := by
  change (if r.status = kind.queued then _ else
    if r.status = kind.executing then _ else _ : Edit Unit) r = _
  split_ifs with hq he
  · rw [start_of_queued hq]
    have hl : r.status.leadsTo kind.executing = true := by
      rw [hq]
      cases kind <;> rfl
    refine (Effect.bind_ok (enter_ok _ now hl)).trans ?_
    cases kind <;> rfl
  · rw [start_of_executing he]
    rfl
  · rw [start_of_ne hq he]
    rfl

theorem finishPlan_eq (hs : r.status = .planning) (result : PhaseResult) (now later : Instant) :
    finishPlan result now later r = r.settle ((r.finishPlan result now later).map (·, ())) := by
  unfold finishPlan Run.finishPlan
  by_cases he : result.errored = true
  · rw [if_pos he, if_pos he]
    exact Effect.bind_ok (enter_ok _ now (hs ▸ rfl))
  rw [if_neg he, if_neg he]
  -- the phase is written, and the status is still that of a run that is planned
  let report := result.report.getD Report.empty
  let ended : Run := { r with plan := { r.plan.enter .finished now with report := some report } }
  have hl : ∀ {next}, RunStatus.leadsTo .planning next = true → ended.status.leadsTo next = true :=
    fun h => hs ▸ h
  change (if !report.hasChanges || r.speculative then _ else _ : Edit Unit) ended =
    r.settle ((if !report.hasChanges || r.speculative then _ else _ : Except Error Run).map (·, ()))
  by_cases hc : (!report.hasChanges || r.speculative) = true
  · rw [if_pos hc, if_pos hc]
    exact Effect.bind_ok (enter_ok _ now (hl rfl))
  rw [if_neg hc, if_neg hc]
  refine (Effect.bind_ok (enter_ok _ now (hl rfl))).trans ?_
  change (if r.autoApply then enqueueApply later else pure () : Edit Unit) (ended.enter .planned now) =
    r.settle ((if r.autoApply then (ended.enter .planned now).enqueueApply later else _ :
      Except Error Run).map (·, ()))
  split_ifs
  · rw [enqueueApply_eq]
    rfl
  · rfl

theorem finishApply_eq (hs : r.status = .applying) (result : PhaseResult) (now : Instant) :
    finishApply result now r = r.settle ((r.finishApply result now).map (·, ())) := by
  unfold finishApply Run.finishApply
  split_ifs
  · exact Effect.bind_ok (enter_ok _ now (hs ▸ rfl))
  · let ended : Run := { r with apply := { r.apply with report := result.report } }
    have hl : ended.status.leadsTo .applied = true := hs ▸ rfl
    exact Effect.bind_ok (enter_ok _ now hl)

theorem finish_eq (r : Run) (kind : PhaseKind) (result : PhaseResult) (now later : Instant) :
    finish kind result now later r = r.settle ((r.finish kind result now later).map (·, ())) := by
  change (if r.IsWithdrawn then _ else if r.status = kind.executing then _ else _ : Edit Unit) r = _
  split_ifs with hw he
  · rw [finish_of_withdrawn hw]
    rfl
  · cases kind with
    | plan =>
      rw [finish_plan_of_planning he]
      exact finishPlan_eq he result now later
    | apply =>
      rw [finish_apply_of_applying he]
      exact finishApply_eq he result now
  · rw [finish_of_ne hw he]
    rfl

theorem cancel_eq (r : Run) (now : Instant) : cancel now r = r.settle (r.cancel now) := by
  change (if r.isDone then _ else _ : Edit Bool) r = _
  unfold Run.cancel
  split_ifs with hd
  · rfl
  · obtain ⟨plan, apply, he⟩ := r.abandonPhases_eq now
    -- to give up the phases leaves the status alone
    have hl : (r.abandonPhases now).status.leadsTo .canceled = true := by
      rw [he]
      exact RunStatus.leadsTo_canceled ((Bool.not_eq_true _).mp hd)
    have hgiven : (modify (·.abandonPhases now) : Edit Unit) r = (.ok (), r.abandonPhases now) := rfl
    exact (Effect.bind_ok hgiven).trans (Effect.bind_ok (enter_ok _ now hl))

theorem forceCancelAt_eq (r : Run) (now : Instant) :
    forceCancelAt now r = r.settle ((r.forceCancelAt now).map (·, ())) := by
  change (match r.forceCancelFrom with | some available => _ | none => _ : Edit Unit) r = _
  unfold Run.forceCancelAt
  cases r.forceCancelFrom with
  | none => rfl
  | some available =>
    dsimp only
    split_ifs with hc
    · exact enter_ok _ now (hc.1 ▸ rfl)
    · rfl

theorem discard_eq (r : Run) (now : Instant) :
    discard now r = r.settle ((r.discard now).map (·, ())) := by
  change (if r.status = .pending ∨ r.status = .planned then _ else _ : Edit Unit) r = _
  by_cases hp : r.status = .pending
  · rw [if_pos (.inl hp), if_pos hp]
    unfold Run.discard
    rw [hp]
    let given : Run := (r.enterPlan .unreachable now).enterApply .unreachable now
    have hl : given.status.leadsTo .discarded = true := hp ▸ rfl
    exact enter_ok _ now hl
  by_cases ha : r.status = .planned
  · rw [if_pos (.inr ha), if_neg hp]
    unfold Run.discard
    rw [ha]
    let given : Run := r.enterApply .unreachable now
    have hl : given.status.leadsTo .discarded = true := ha ▸ rfl
    exact enter_ok _ now hl
  · rw [if_neg (not_or.mpr ⟨hp, ha⟩), discard_of_ne hp ha]
    rfl

theorem settle_return {α β : Type} {x : Edit α} {outcome : Except Error (Run × α)}
    (h : x r = r.settle outcome) (f : α → β) :
    (do return f (← x) : Edit β) r = r.settle (outcome.map fun p => (p.1, f p.2)) := by
  rcases outcome with e | ⟨r', a⟩
  · exact Effect.bind_error h
  · exact Effect.bind_ok h

/-- **In place and at once**: performed write by write, an action has the same outcome, and leaves the
run that `Run.perform` returns; if it is refused, it leaves the run as it was. -/
theorem perform_eq (r : Run) (action : Action) (now later : Instant) :
    perform action now later r = r.settle (r.perform action now later) := by
  have hunit : ∀ {x : Edit Unit} {o : Except Error Run}, x r = r.settle (o.map (·, ())) →
      (do x; return none : Edit (Option Bool)) r = r.settle (o.map (·, none)) := by
    intro x o h
    have hr := settle_return h fun _ => (none : Option Bool)
    cases o <;> exact hr
  cases action with
  | enqueuePlan => exact hunit (enqueuePlan_eq r now)
  | enqueueApply => exact hunit (enqueueApply_eq r now)
  | start kind agent => exact hunit (start_eq r kind agent now)
  | finish kind result => exact hunit (finish_eq r kind result now later)
  | cancel => exact settle_return (cancel_eq r now) some
  | forceCancel => exact hunit (forceCancelAt_eq r now)
  | discard => exact hunit (discard_eq r now)
  | setAutoApply value => rfl

/-- Not every edit is like this: one that is refused after a write leaves the write. -/
example : (do modify (·.enterPlan .queued ⟨1, 0⟩); refuse "start" : Edit Unit) (Run.new 1 {} ⟨0, 0⟩) =
    (.error (.invalidTransition (Run.new 1 {} ⟨0, 0⟩).id "start" "pending"),
      (Run.new 1 {} ⟨0, 0⟩).enterPlan .queued ⟨1, 0⟩) := rfl

end Edit

/-! ## Which actions are permitted -/

/-- The actions that the status of a run permits, at a reading of the clock. -/
def Permits (r : Run) (now : Instant) : Action → Prop
  | .enqueuePlan => r.status = .pending
  | .enqueueApply => r.status = .planned
  | .start kind _ => r.status = kind.queued
  | .finish kind _ => r.status = kind.executing ∨ r.IsWithdrawn
  | .cancel => r.isDone = false
  | .forceCancel =>
    r.status = .canceled ∧ ∃ available, r.forceCancelFrom = some available ∧ available < now
  | .discard => r.status = .pending ∨ r.status = .planned
  | .setAutoApply _ => True

/-- Why an action that is not permitted is refused. -/
def blame (r : Run) (action : Action) : Error :=
  match action with
  | .start kind _ =>
    if r.status = kind.executing then .phaseAlreadyClaimed r.id kind.name
    else .invalidTransition r.id action.name r.status.name
  | _ => .invalidTransition r.id action.name r.status.name

section Permits

variable {r : Run} {now : Instant}

theorem finishPlan_ok (r : Run) (result : PhaseResult) (now later : Instant) :
    ∃ r', r.finishPlan result now later = .ok r' := by
  unfold finishPlan
  dsimp only
  split_ifs
  · exact ⟨_, rfl⟩
  · exact ⟨_, rfl⟩
  · exact ⟨_, if_pos rfl⟩
  · exact ⟨_, rfl⟩

theorem finishApply_ok (r : Run) (result : PhaseResult) (now : Instant) :
    ∃ r', r.finishApply result now = .ok r' := by
  unfold finishApply
  split_ifs
  · exact ⟨_, rfl⟩
  · exact ⟨_, rfl⟩

theorem map_ok {α β ε : Type} {x : Except ε α} (f : α → β) (h : ∃ a, x = .ok a) :
    ∃ b, x.map f = .ok b := by
  obtain ⟨a, rfl⟩ := h
  exact ⟨f a, rfl⟩

/-- **A permitted action succeeds.** -/
theorem perform_of_permits {action : Action} (h : r.Permits now action) (later : Instant) :
    ∃ out, r.perform action now later = .ok out := by
  cases action with
  | enqueuePlan => exact map_ok _ ⟨_, if_pos h⟩
  | enqueueApply => exact map_ok _ ⟨_, if_pos h⟩
  | start kind agent => exact map_ok _ ⟨_, start_of_queued h agent now⟩
  | finish kind result =>
    refine map_ok _ ?_
    rcases h with h | h
    · cases kind with
      | plan =>
        rw [finish_plan_of_planning h]
        exact finishPlan_ok r result now later
      | apply =>
        rw [finish_apply_of_applying h]
        exact finishApply_ok r result now
    · exact ⟨r, finish_of_withdrawn h kind result now later⟩
  | cancel =>
    refine map_ok _ ⟨_, if_neg ?_⟩
    rw [h]
    nofun
  | forceCancel =>
    obtain ⟨hs, available, ha, hlt⟩ := h
    refine map_ok _ ⟨r.enter .forceCanceled now, ?_⟩
    unfold forceCancelAt
    rw [ha]
    exact if_pos ⟨hs, hlt⟩
  | discard =>
    refine map_ok _ ?_
    unfold discard
    rcases h with h | h
    · rw [h]
      exact ⟨_, rfl⟩
    · rw [h]
      exact ⟨_, rfl⟩
  | setAutoApply value => exact ⟨_, rfl⟩

/-- **Another action is refused**, for the stated reason. -/
theorem perform_of_not_permits {action : Action} (h : ¬ r.Permits now action) (later : Instant) :
    r.perform action now later = .error (r.blame action) := by
  cases action with
  | enqueuePlan => exact congrArg (Except.map _) (if_neg h)
  | enqueueApply => exact congrArg (Except.map _) (if_neg h)
  | start kind agent =>
    have hstart : r.start kind agent now = .error (r.blame (.start kind agent)) := by
      unfold blame
      dsimp only
      split_ifs with he
      · exact start_of_executing he agent now
      · exact start_of_ne h he agent now
    exact congrArg (Except.map _) hstart
  | finish kind result =>
    obtain ⟨he, hw⟩ := not_or.mp h
    exact congrArg (Except.map _) (finish_of_ne hw he result now later)
  | cancel => exact congrArg (Except.map _) (if_pos ((Bool.not_eq_false _).mp h))
  | forceCancel =>
    have hforce : r.forceCancelAt now = .error (r.blame .forceCancel) := by
      unfold forceCancelAt
      split
      · next available ha => exact if_neg fun hc => h ⟨hc.1, available, ha, hc.2⟩
      · rfl
    exact congrArg (Except.map _) hforce
  | discard =>
    obtain ⟨hp, ha⟩ := not_or.mp h
    exact congrArg (Except.map _) (discard_of_ne hp ha now)
  | setAutoApply value => exact absurd trivial h

end Permits

/-- **Actions are accepted exactly where they are permitted, and a refused one changes nothing.** On any
run, at any readings of the clock, an action that is performed write by write succeeds if and only if the
status permits it; otherwise it leaves the run as it was, phases, logs and cool-off included, and the
error is that of `Run.blame`: the phase is claimed already for a start of the phase that is executing,
and in every other case the transition is invalid. Performed at once, the action has the same outcome. -/
theorem permits_exactly (r : Run) (action : Action) (now later : Instant) :
    ((∃ flag r', Edit.perform action now later r = (.ok flag, r')) ↔ r.Permits now action) ∧
      (∀ e r', Edit.perform action now later r = (.error e, r') ↔
        ¬ r.Permits now action ∧ e = r.blame action ∧ r' = r) ∧
      Edit.perform action now later r = r.settle (r.perform action now later) := by
  have heq := Edit.perform_eq r action now later
  by_cases h : r.Permits now action
  · obtain ⟨⟨r', flag⟩, hok⟩ := perform_of_permits h later
    have hrun : Edit.perform action now later r = (.ok flag, r') := by
      rw [heq, hok]
      rfl
    refine ⟨iff_of_true ⟨flag, r', hrun⟩ h, fun e r₁ => iff_of_false ?_ (fun hn => hn.1 h), heq⟩
    rw [hrun]
    nofun
  · have hrun : Edit.perform action now later r = (.error (r.blame action), r) := by
      rw [heq, perform_of_not_permits h later]
      rfl
    refine ⟨iff_of_false ?_ h, fun e r' => ?_, heq⟩
    · rw [hrun]
      rintro ⟨flag, r', hok⟩
      cases hok
    · rw [hrun, Prod.mk.injEq, Except.error.injEq]
      exact ⟨fun he => ⟨h, he.1.symm, he.2.symm⟩, fun he => ⟨he.2.1.symm, he.2.2.symm⟩⟩

end Run

end Provision
