import Provision.Proofs.Run.Outcome

/-!
# Runs and their phases move together

The status of a run and those of its two phases are written by different functions. After any history
of attempts they still fit one table, and the log of each phase is a path of the phases' own chart.

* `PhaseStatus.leadsTo` is the chart of a phase, `Run.couples` the table.
* `Phase.Regular`: the log is a path without repetition, the phase is claimed if and only if it has
  been running, and it reports only once it is finished.
* `Run.coupled_after`: every run reached from a new one fits.
-/

namespace Provision

namespace PhaseStatus

/-- Whether the second status may directly follow the first. -/
def leadsTo : PhaseStatus → PhaseStatus → Bool
  | .pending, .queued | .pending, .unreachable => true
  | .queued, .running | .queued, .canceled => true
  | .running, .finished | .running, .errored | .running, .canceled => true
  | _, _ => false

/-- How far along a status is. -/
def rank : PhaseStatus → ℕ
  | .pending => 0
  | .queued => 1
  | .running => 2
  | .finished | .canceled | .errored | .unreachable => 3

theorem rank_lt_of_leadsTo (a b : PhaseStatus) (h : a.leadsTo b = true) : a.rank < b.rank := by
  cases a <;> cases b <;> simp_all [leadsTo, rank]

theorem ne_finished_of_leadsTo {a b : PhaseStatus} (h : a.leadsTo b = true) : a ≠ .finished := by
  rintro rfl
  cases b <;> cases h

end PhaseStatus

namespace Phase

open Entered (statuses IsPath)

/-- What holds of a phase at any time. -/
structure Regular (p : Phase) : Prop where
  path : IsPath PhaseStatus.leadsTo .pending p.status p.log
  nodup : (statuses p.log).Nodup
  /-- The phase is claimed if and only if it has been running. -/
  claimed : p.claimedBy.isSome = true ↔ .running ∈ statuses p.log
  /-- Only a finished phase has a report. -/
  report : p.report.isSome = true → p.status = .finished

theorem regular_new (run : String) (kind : PhaseKind) (now : Instant) :
    (Phase.new run kind now).Regular where
  path := .single _ _ _
  nodup := List.nodup_singleton _
  claimed := by simp [Phase.new]
  report := by simp [Phase.new]

section Enter

variable {p : Phase} {s : PhaseStatus}

/-- **A regular phase stays so** when it enters a status that may follow, is claimed when it starts to
run and reports when it finishes. -/
theorem Regular.revise (h : p.Regular) (hs : p.status.leadsTo s = true) (now : Instant)
    (claim : Option String) (report : Option Report)
    (hc : claim.isSome = true ↔ p.claimedBy.isSome = true ∨ s = .running)
    (hr : report.isSome = true → s = .finished) :
    ({ p.enter s now with claimedBy := claim, report := report } : Phase).Regular where
  path := h.path.enter hs now
  nodup := (h.path.enter hs now).nodup PhaseStatus.rank PhaseStatus.rank_lt_of_leadsTo
  claimed := by
    have hm : PhaseStatus.running ∈ statuses (p.log ++ [⟨s, now⟩]) ↔
        .running ∈ statuses p.log ∨ s = .running := by
      simp [eq_comm]
    exact hc.trans ((or_congr_left h.claimed).trans hm.symm)
  report := hr

theorem Regular.report_eq_none (h : p.Regular) (hs : p.status.leadsTo s = true) :
    p.report = none := by
  by_contra hne
  exact PhaseStatus.ne_finished_of_leadsTo hs (h.report (Option.isSome_iff_ne_none.mpr hne))

theorem Regular.enter (h : p.Regular) (hs : p.status.leadsTo s = true) (hr : s ≠ .running)
    (now : Instant) : (p.enter s now).Regular :=
  h.revise hs now p.claimedBy p.report (by simp [hr])
    (by simp [h.report_eq_none hs])

theorem Regular.claim (h : p.Regular) (hs : p.status = .queued) (agent : String) (now : Instant) :
    ({ p.enter .running now with claimedBy := some agent } : Phase).Regular := by
  have hl : p.status.leadsTo .running = true := by rw [hs]; rfl
  exact h.revise hl now (some agent) p.report (by simp) (by simp [h.report_eq_none hl])

theorem Regular.finish (h : p.Regular) (hs : p.status = .running) (report : Option Report)
    (now : Instant) : ({ p.enter .finished now with report := report } : Phase).Regular := by
  have hl : p.status.leadsTo .finished = true := by rw [hs]; rfl
  exact h.revise hl now p.claimedBy report (by simp) (by simp)

end Enter

end Phase

namespace Run

/-- The statuses of the plan and of the apply that go with the status of a run. -/
def phases : RunStatus → List (PhaseStatus × PhaseStatus)
  | .pending => [(.pending, .pending)]
  | .planQueued => [(.queued, .pending)]
  | .planning => [(.running, .pending)]
  | .planned => [(.finished, .pending)]
  | .plannedAndFinished => [(.finished, .unreachable)]
  | .applyQueued => [(.finished, .queued)]
  | .applying => [(.finished, .running)]
  | .applied => [(.finished, .finished)]
  | .errored => [(.errored, .unreachable), (.finished, .errored)]
  | .canceled | .forceCanceled =>
    [(.unreachable, .unreachable), (.canceled, .unreachable), (.finished, .unreachable),
      (.finished, .canceled)]
  | .discarded => [(.unreachable, .unreachable), (.finished, .unreachable)]

/-- What holds of a run and its phases at any time. -/
structure Coupled (r : Run) : Prop where
  fits : (r.plan.status, r.apply.status) ∈ phases r.status
  plan : r.plan.Regular
  apply : r.apply.Regular
  reported : r.plan.status = .finished → r.plan.report.isSome = true

theorem coupled_new (number : ℕ) (opts : NewRun) (now : Instant) :
    (Run.new number opts now).Coupled where
  fits := List.mem_singleton_self _
  plan := Phase.regular_new _ _ _
  apply := Phase.regular_new _ _ _
  reported h := by cases h

section Step

variable {r r' : Run} {now later : Instant}

theorem Coupled.mem_phases (h : r.Coupled) {s : RunStatus} (hs : r.status = s) :
    (r.plan.status, r.apply.status) ∈ phases s := hs ▸ h.fits

theorem Coupled.phases_eq (h : r.Coupled) {s : RunStatus} (hs : r.status = s)
    {p a : PhaseStatus} (hp : phases s = [(p, a)]) : r.plan.status = p ∧ r.apply.status = a := by
  have hm := h.mem_phases hs
  rw [hp, List.mem_singleton, Prod.mk.injEq] at hm
  exact hm

/-- A run is coupled if its phases have statuses that fit, and are regular. -/
theorem coupled_of_phases (s : RunStatus) (p a : PhaseStatus) (hs : r.status = s)
    (hp : r.plan.status = p) (ha : r.apply.status = a) (fits : (p, a) ∈ phases s)
    (plan : r.plan.Regular) (apply : r.apply.Regular)
    (reported : p = .finished → r.plan.report.isSome = true) : r.Coupled where
  fits := by
    rw [hs, hp, ha]
    exact fits
  plan := plan
  apply := apply
  reported h := reported (hp ▸ h)

section Plan

variable (h : r.Coupled)
include h

theorem Coupled.enqueuePlan (hs : r.status = .pending) :
    ((r.enter .planQueued now).enterPlan .queued now).Coupled := by
  obtain ⟨hp, ha⟩ := h.phases_eq hs rfl
  have hl : r.plan.status.leadsTo .queued = true := by rw [hp]; rfl
  exact coupled_of_phases .planQueued .queued .pending rfl rfl ha (by decide)
    (h.plan.enter hl (by decide) now) h.apply nofun

theorem Coupled.startPlan (hs : r.status = .planQueued) (agent : String) :
    ({ (r.enter .planning now) with
      plan := { r.plan.enter .running now with claimedBy := some agent } } : Run).Coupled := by
  obtain ⟨hp, ha⟩ := h.phases_eq hs rfl
  exact coupled_of_phases .planning .running .pending rfl rfl ha (by decide)
    (h.plan.claim hp agent now) h.apply nofun

theorem Coupled.planErrored (hs : r.status = .planning) :
    (((r.enter .errored now).enterPlan .errored now).enterApply .unreachable now).Coupled := by
  obtain ⟨hp, ha⟩ := h.phases_eq hs rfl
  have hl : r.plan.status.leadsTo .errored = true := by rw [hp]; rfl
  have hl' : r.apply.status.leadsTo .unreachable = true := by rw [ha]; rfl
  exact coupled_of_phases .errored .errored .unreachable rfl rfl rfl (by decide)
    (h.plan.enter hl (by decide) now) (h.apply.enter hl' (by decide) now) nofun

theorem Coupled.planEnded (hs : r.status = .planning) (report : Report) :
    (({ r with plan := { r.plan.enter .finished now with report := some report } }.enter
      .plannedAndFinished now).enterApply .unreachable now).Coupled := by
  obtain ⟨hp, ha⟩ := h.phases_eq hs rfl
  have hl : r.apply.status.leadsTo .unreachable = true := by rw [ha]; rfl
  exact coupled_of_phases .plannedAndFinished .finished .unreachable rfl rfl rfl (by decide)
    (h.plan.finish hp (some report) now) (h.apply.enter hl (by decide) now) fun _ => rfl

theorem Coupled.planned (hs : r.status = .planning) (report : Report) :
    ({ r with plan := { r.plan.enter .finished now with report := some report } }.enter
      .planned now).Coupled := by
  obtain ⟨hp, ha⟩ := h.phases_eq hs rfl
  exact coupled_of_phases .planned .finished .pending rfl rfl ha (by decide)
    (h.plan.finish hp (some report) now) h.apply fun _ => rfl

end Plan

section Apply

variable (h : r.Coupled)
include h

theorem Coupled.enqueueApply (hs : r.status = .planned) :
    ((r.enter .applyQueued now).enterApply .queued now).Coupled := by
  obtain ⟨hp, ha⟩ := h.phases_eq hs rfl
  have hl : r.apply.status.leadsTo .queued = true := by rw [ha]; rfl
  exact coupled_of_phases .applyQueued .finished .queued rfl hp rfl (by decide)
    h.plan (h.apply.enter hl (by decide) now) fun _ => h.reported hp

theorem Coupled.startApply (hs : r.status = .applyQueued) (agent : String) :
    ({ (r.enter .applying now) with
      apply := { r.apply.enter .running now with claimedBy := some agent } } : Run).Coupled := by
  obtain ⟨hp, ha⟩ := h.phases_eq hs rfl
  exact coupled_of_phases .applying .finished .running rfl hp rfl (by decide)
    h.plan (h.apply.claim ha agent now) fun _ => h.reported hp

theorem Coupled.applyErrored (hs : r.status = .applying) :
    ((r.enter .errored now).enterApply .errored now).Coupled := by
  obtain ⟨hp, ha⟩ := h.phases_eq hs rfl
  have hl : r.apply.status.leadsTo .errored = true := by rw [ha]; rfl
  exact coupled_of_phases .errored .finished .errored rfl hp rfl (by decide)
    h.plan (h.apply.enter hl (by decide) now) fun _ => h.reported hp

theorem Coupled.applied (hs : r.status = .applying) (report : Option Report) :
    ({ (r.enter .applied now) with
      apply := { r.apply.enter .finished now with report := report } } : Run).Coupled := by
  obtain ⟨hp, ha⟩ := h.phases_eq hs rfl
  exact coupled_of_phases .applied .finished .finished rfl hp rfl (by decide)
    h.plan (h.apply.finish ha report now) fun _ => h.reported hp

end Apply

section End

variable (h : r.Coupled)
include h

theorem Coupled.giveUpApply {s₀ s : RunStatus} {a₀ a : PhaseStatus} (hs : r.status = s₀)
    (h₀ : phases s₀ = [(.finished, a₀)]) (hl : a₀.leadsTo a = true) (hr : a ≠ .running)
    (hm : (.finished, a) ∈ phases s) : ((r.enterApply a now).enter s now).Coupled := by
  obtain ⟨hp, ha⟩ := h.phases_eq hs h₀
  have hl' : r.apply.status.leadsTo a = true := by rw [ha]; exact hl
  exact coupled_of_phases s .finished a rfl hp rfl hm h.plan (h.apply.enter hl' hr now)
    fun _ => h.reported hp

theorem Coupled.giveUpBoth {s₀ s : RunStatus} {p₀ p : PhaseStatus} (hs : r.status = s₀)
    (h₀ : phases s₀ = [(p₀, .pending)]) (hl : p₀.leadsTo p = true) (hr : p ≠ .running)
    (hf : p ≠ .finished) (hm : (p, .unreachable) ∈ phases s) :
    (((r.enterPlan p now).enterApply .unreachable now).enter s now).Coupled := by
  obtain ⟨hp, ha⟩ := h.phases_eq hs h₀
  have hl' : r.plan.status.leadsTo p = true := by rw [hp]; exact hl
  have hu : r.apply.status.leadsTo .unreachable = true := by rw [ha]; rfl
  exact coupled_of_phases s p .unreachable rfl rfl rfl hm (h.plan.enter hl' hr now)
    (h.apply.enter hu (by decide) now) fun he => absurd he hf

/-- **A cancel leaves the phases in order**, whatever they were doing. -/
theorem Coupled.abandon (hd : r.isDone = false) :
    ((r.abandonPhases now).enter .canceled now).Coupled := by
  unfold abandonPhases
  split
  · next hs => exact h.giveUpBoth hs rfl rfl (by decide) (by decide) (by decide)
  · next hs => exact h.giveUpBoth hs rfl rfl (by decide) (by decide) (by decide)
  · next hs => exact h.giveUpBoth hs rfl rfl (by decide) (by decide) (by decide)
  · next hs => exact h.giveUpApply hs rfl rfl (by decide) (by decide)
  · next hs => exact h.giveUpApply hs rfl rfl (by decide) (by decide)
  · next hs => exact h.giveUpApply hs rfl rfl (by decide) (by decide)
  · next =>
    -- the run is done, which a cancel refuses
    exfalso
    cases hs : r.status <;> simp_all [isDone, RunStatus.isDone]

theorem Coupled.forceCancel (hs : r.status = .canceled) : (r.enter .forceCanceled now).Coupled where
  fits := by
    -- the table has the same phases for both
    have hm := h.mem_phases hs
    exact hm
  plan := h.plan
  apply := h.apply
  reported := h.reported

end End

/-- **Every outcome keeps a run coupled.** -/
theorem Coupled.outcome (h : r.Coupled) {action : Action} (ho : Outcome r now later action r') :
    r'.Coupled := by
  cases ho with
  | enqueuePlan hs => exact h.enqueuePlan hs
  | enqueueApply hs => exact h.enqueueApply hs
  | startPlan agent hs => exact h.startPlan hs agent
  | startApply agent hs => exact h.startApply hs agent
  | late kind result hs => exact h
  | planErrored result hs => exact h.planErrored hs
  | planEnded result report hs => exact h.planEnded hs report
  | planned result report hs => exact h.planned hs report
  | confirmed result report hs => exact (h.planned hs report).enqueueApply rfl
  | applyErrored result hs => exact h.applyErrored hs
  | applied result hs => exact h.applied hs result.report
  | canceled hd =>
    have hc : ((r.abandonPhases now).enter .canceled now).Coupled := h.abandon hd
    exact ⟨hc.fits, hc.plan, hc.apply, hc.reported⟩
  | forceCanceled available hs _ _ => exact h.forceCancel hs
  | discardedEarly hs => exact h.giveUpBoth hs rfl rfl (by decide) (by decide) (by decide)
  | discardedLate hs => exact h.giveUpApply hs rfl rfl (by decide) (by decide)
  | setAutoApply value => exact ⟨h.fits, h.plan, h.apply, h.reported⟩

/-- A history keeps a run coupled. -/
theorem Coupled.after (h : r.Coupled) (history : List Attempt) : (r.after history).Coupled :=
  after_induction (fun _ _ _ _ _ h ho => h.outcome ho) h history

end Step

/-- **Runs and phases move together**: after any history of attempts on a new run, refused ones
included, the three statuses fit the table, and either phase is regular. -/
theorem coupled_after (number : ℕ) (opts : NewRun) (now : Instant) (history : List Attempt) :
    ((Run.new number opts now).after history).Coupled :=
  after_induction (fun _ _ _ _ _ h ho => h.outcome ho) (coupled_new number opts now) history

end Run

end Provision
