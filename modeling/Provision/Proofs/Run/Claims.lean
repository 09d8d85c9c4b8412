import Provision.Proofs.Run.Coupling
import Provision.Proofs.Run.Edit

/-!
# Claims

Agents compete for the phases of a run. `Run.claimants` are those whose claims of a phase were accepted
in the course of a history.

* `Run.Coupled.start_eq`: how a claim is answered, by the status of the phase alone.
* `Run.claimedBy_after`: a phase is claimed by its only claimant, if there is one.
* `Run.exists_finish`: a plan is finished by a result that says so.
* **`Run.claimed_once`**: the life of a claim, in any history of a new run.
-/

namespace Provision

theorem Phase.Regular.unclaimed {p : Phase} (h : p.Regular)
    (hs : p.status = .pending ∨ p.status = .queued) : p.claimedBy = none := by
  -- the log would enter the status twice if it went on to it
  have hlast : ∀ {log}, Entered.IsPath PhaseStatus.leadsTo .pending .queued log →
      .running ∉ Entered.statuses log := by
    intro log hp hm
    have hn := (hp.enter (s := .running) rfl ⟨0, 0⟩).nodup _ PhaseStatus.rank_lt_of_leadsTo
    rw [Entered.statuses_append, Entered.statuses_singleton] at hn
    exact (List.nodup_append.mp hn).2.2 _ hm _ (List.mem_singleton_self _) rfl
  have hno : .running ∉ Entered.statuses p.log := by
    have hp := h.path
    rcases hs with hs | hs
    · rw [hs] at hp
      intro hm
      refine hlast (hp.enter (s := .queued) rfl ⟨0, 0⟩) ?_
      rw [Entered.statuses_append]
      exact List.mem_append_left _ hm
    · rw [hs] at hp
      exact hlast hp
  exact Option.not_isSome_iff_eq_none.mp fun hc => hno (h.claimed.mp hc)

namespace Run

/-! ## How a claim is answered -/

/-- The table tells from the status of a run whether a phase is queued or running. -/
theorem phases_spec (s : RunStatus) (kind : PhaseKind) : ∀ p ∈ phases s,
    (s = kind.queued ↔ (match kind with | .plan => p.1 | .apply => p.2) = .queued) ∧
      (s = kind.executing ↔ (match kind with | .plan => p.1 | .apply => p.2) = .running) := by
  cases kind <;> cases s <;> decide

section Start

variable {r : Run} (h : r.Coupled) (kind : PhaseKind)
include h

theorem Coupled.regular : (r.phase kind).Regular := by
  cases kind with
  | plan => exact h.plan
  | apply => exact h.apply

theorem Coupled.phase_iff : (r.status = kind.queued ↔ (r.phase kind).status = .queued) ∧
    (r.status = kind.executing ↔ (r.phase kind).status = .running) := by
  have hp := phases_spec r.status kind _ h.fits
  cases kind with
  | plan => exact hp
  | apply => exact hp

/-- **How a claim is answered**: it is accepted where the phase is queued, and finds the phase claimed
where it is running. -/
theorem Coupled.start_eq (agent : String) (t : Instant) :
    r.start kind agent t = match (r.phase kind).status with
      | .queued => .ok (r.claimed agent t kind)
      | .running => .error (.phaseAlreadyClaimed r.id kind.name)
      | _ => .error (.invalidTransition r.id "start" r.status.name) := by
  obtain ⟨hq, he⟩ := h.phase_iff kind
  split
  · next hs => exact start_of_queued (hq.mpr hs) agent t
  · next hs => exact start_of_executing (he.mpr hs) agent t
  · next hnq hne => exact start_of_ne (fun hs => hnq (hq.mp hs)) (fun hs => hne (he.mp hs)) agent t

end Start

/-! ## Claimants -/

/-- The agent whose claim of a phase is accepted with an attempt. -/
def claim? (kind : PhaseKind) (r : Run) (a : Attempt) : Option String :=
  match a.action, r.perform a.action a.now a.later with
  | .start k agent, .ok _ => if k = kind then some agent else none
  | _, _ => none

/-- The agents whose claims of a phase are accepted in a history, in their order. -/
def claimants (kind : PhaseKind) (r : Run) : List Attempt → List String
  | [] => []
  | a :: rest => (r.claim? kind a).toList ++ (r.attempt a).claimants kind rest

section Step

variable {r r' : Run} {now later : Instant} {action : Action}

theorem Outcome.claimedBy (ho : Outcome r now later action r') (kind : PhaseKind) :
    (∃ agent, action = .start kind agent ∧ r.status = kind.queued ∧
      (r'.phase kind).claimedBy = some agent) ∨
      (∀ agent, action ≠ .start kind agent) ∧ (r'.phase kind).claimedBy = (r.phase kind).claimedBy := by
  cases ho with
  | startPlan agent hs =>
    cases kind with
    | plan => exact .inl ⟨agent, rfl, hs, rfl⟩
    | apply => exact .inr ⟨nofun, rfl⟩
  | startApply agent hs =>
    cases kind with
    | plan => exact .inr ⟨nofun, rfl⟩
    | apply => exact .inl ⟨agent, rfl, hs, rfl⟩
  | canceled hd =>
    refine .inr ⟨nofun, ?_⟩
    change ((r.abandonPhases now).phase kind).claimedBy = _
    unfold abandonPhases
    split
    all_goals cases kind <;> rfl
  | enqueuePlan | enqueueApply | late | planErrored | planEnded | planned | confirmed | applyErrored
  | applied | forceCanceled | discardedEarly | discardedLate | setAutoApply =>
    exact .inr ⟨nofun, by cases kind <;> rfl⟩

theorem Coupled.attempt (h : r.Coupled) (a : Attempt) : (r.attempt a).Coupled := by
  rcases attempt_cases r a with he | ho
  · rw [he]
    exact h
  · exact h.outcome ho

theorem Coupled.claim_cases (h : r.Coupled) (kind : PhaseKind) (a : Attempt) :
    (r.claim? kind a = none ∧ ((r.attempt a).phase kind).claimedBy = (r.phase kind).claimedBy) ∨
      ∃ agent, r.claim? kind a = some agent ∧ r.status = kind.queued ∧
        (r.phase kind).claimedBy = none ∧ ((r.attempt a).phase kind).claimedBy = some agent := by
  obtain ⟨action, now, later⟩ := a
  unfold claim? Run.attempt
  dsimp only
  cases hp : r.perform action now later with
  | error e =>
    refine .inl ⟨?_, rfl⟩
    split
    · next hok => cases hok
    · rfl
  | ok out =>
    obtain ⟨r', flag⟩ := out
    rcases (outcome_of_perform hp).claimedBy kind with ⟨agent, rfl, hs, hc⟩ | ⟨hne, hc⟩
    · have hq := ((h.phase_iff kind).1).mp hs
      exact .inr ⟨agent, if_pos rfl, hs, (h.regular kind).unclaimed (.inr hq), hc⟩
    · refine .inl ⟨?_, hc⟩
      cases action with
      | start k agent =>
        refine if_neg ?_
        rintro rfl
        exact hne agent rfl
      | enqueuePlan | enqueueApply | finish | cancel | forceCancel | discard | setAutoApply => rfl

end Step

section History

variable {r : Run}

/-- **A phase is claimed by its only claimant**, if it has one. -/
theorem claimedBy_after (h : r.Coupled) (kind : PhaseKind) (history : List Attempt) :
    let all := (r.phase kind).claimedBy.toList ++ r.claimants kind history
    all.length ≤ 1 ∧ ((r.after history).phase kind).claimedBy = all.head? := by
  induction history generalizing r with
  | nil =>
    change (_ ++ []).length ≤ 1 ∧ (r.phase kind).claimedBy = (_ ++ []).head?
    rw [List.append_nil]
    cases (r.phase kind).claimedBy with
    | none => exact ⟨Nat.zero_le 1, rfl⟩
    | some agent => exact ⟨le_rfl, rfl⟩
  | cons a rest ih =>
    obtain ⟨hl, hc⟩ := ih (h.attempt a)
    unfold claimants
    rcases h.claim_cases kind a with ⟨hn, he⟩ | ⟨agent, hs, -, hn, he⟩
    · rw [he] at hl hc
      rw [hn]
      exact ⟨hl, hc⟩
    · rw [he] at hl hc
      rw [hn, hs]
      exact ⟨hl, hc⟩

theorem exists_claim {kind : PhaseKind} {history : List Attempt} (h : r.claimants kind history ≠ []) :
    ∃ before a rest, history = before ++ a :: rest ∧ (r.after before).claim? kind a ≠ none := by
  induction history generalizing r with
  | nil => exact absurd rfl h
  | cons a rest ih =>
    by_cases hc : r.claim? kind a = none
    · have hr : (r.attempt a).claimants kind rest ≠ [] := by
        intro he
        refine h ?_
        unfold claimants
        rw [hc, he]
        rfl
      obtain ⟨before, b, rest, rfl, hb⟩ := ih hr
      exact ⟨a :: before, b, rest, rfl, hb⟩
    · exact ⟨[], a, rest, rfl, hc⟩

/-! ## The end of the plan -/

theorem finished_of_attempt (hn : r.plan.status ≠ .finished) {a : Attempt}
    (hf : (r.attempt a).plan.status = .finished) :
    ∃ result, a.action = .finish .plan result ∧ result.errored = false ∧ r.status = .planning := by
  obtain ⟨action, now, later⟩ := a
  have hend : ∀ result, action = .finish .plan result → r.status = .planning →
      ∃ result, action = .finish .plan result ∧ result.errored = false ∧ r.status = .planning := by
    rintro result rfl hs
    refine ⟨result, rfl, (Bool.not_eq_true _).mp fun he => ?_, hs⟩
    -- the report of a failure leaves the plan errored
    have hp : r.perform (.finish .plan result) now later =
        .ok (((r.enter .errored now).enterPlan .errored now).enterApply .unreachable now, none) := by
      refine (congrArg (Except.map (·, none)) (finish_plan_of_planning hs result now later)).trans ?_
      exact congrArg (Except.map (·, none)) (if_pos he)
    unfold attempt at hf
    rw [hp] at hf
    cases hf
  rcases attempt_cases r ⟨action, now, later⟩ with he | ho
  · exact absurd (he ▸ hf) hn
  generalize r.attempt ⟨action, now, later⟩ = r' at ho hf
  cases ho with
  | planEnded result report hs => exact hend result rfl hs
  | planned result report hs => exact hend result rfl hs
  | confirmed result report hs => exact hend result rfl hs
  | canceled hd =>
    change (r.abandonPhases now).plan.status = .finished at hf
    unfold abandonPhases at hf
    split at hf
    all_goals first
      | exact absurd hf hn
      | cases hf
  | enqueuePlan | startPlan | planErrored | discardedEarly => cases hf
  | enqueueApply | startApply | late | applyErrored | applied | forceCanceled | discardedLate
  | setAutoApply => exact absurd hf hn

/-- **A plan is finished by a result that says so.** -/
theorem exists_finish (hn : r.plan.status ≠ .finished) {history : List Attempt}
    (hf : (r.after history).plan.status = .finished) :
    ∃ before a rest result, history = before ++ a :: rest ∧ a.action = .finish .plan result ∧
      result.errored = false ∧ (r.after before).status = .planning := by
  induction history generalizing r with
  | nil => exact absurd hf hn
  | cons a rest ih =>
    by_cases ha : (r.attempt a).plan.status = .finished
    · obtain ⟨result, hact, he, hs⟩ := finished_of_attempt hn ha
      exact ⟨[], a, rest, result, rfl, hact, he, hs⟩
    · obtain ⟨before, b, rest, result, rfl, hb⟩ := ih ha hf
      exact ⟨a :: before, b, rest, result, rfl, hb⟩

end History

/-- **One claim per phase, for life.** In any history of attempts on a new run, by any agents in any
order, at most one claim of a phase is accepted. The phase is claimed by its claimant from then on, and
whatever else is attempted does not change that. A claim is answered by the status of the phase: it is
accepted where the phase is queued, finds it claimed where it is running, and is no transition before
and after. The apply is claimed only after a result finished the plan, with no failure. -/
theorem claimed_once (number : ℕ) (opts : NewRun) (now : Instant) (history : List Attempt)
    (kind : PhaseKind) :
    let r₀ := Run.new number opts now
    let r := r₀.after history
    (r₀.claimants kind history).length ≤ 1 ∧
      (r.phase kind).claimedBy = (r₀.claimants kind history).head? ∧
      (∀ agent, (r.phase kind).claimedBy = some agent →
        ∀ more, ((r.after more).phase kind).claimedBy = some agent) ∧
      (∀ agent t, r.start kind agent t = match (r.phase kind).status with
        | .queued => .ok (r.claimed agent t kind)
        | .running => .error (.phaseAlreadyClaimed r.id kind.name)
        | _ => .error (.invalidTransition r.id "start" r.status.name)) ∧
      (r.apply.claimedBy ≠ none → ∃ before a rest result, history = before ++ a :: rest ∧
        a.action = .finish .plan result ∧ result.errored = false ∧
          (r₀.after before).status = .planning ∧ (r₀.after before).apply.claimedBy = none) := by
  intro r₀ r
  have hnew : r₀.Coupled := coupled_new number opts now
  have hr : r.Coupled := hnew.after history
  have hstart : ∀ k, (r₀.phase k).claimedBy = none := fun k => by cases k <;> rfl
  obtain ⟨hl, hc⟩ := claimedBy_after hnew kind history
  rw [hstart kind] at hl hc
  refine ⟨hl, hc, fun agent ha more => ?_, hr.start_eq kind, fun ha => ?_⟩
  · -- a claimed phase has no further claimant
    obtain ⟨-, hm⟩ := claimedBy_after hr kind more
    rw [ha] at hm
    exact hm
  · obtain ⟨-, hc⟩ := claimedBy_after hnew .apply history
    rw [hstart .apply] at hc
    have hne : r₀.claimants .apply history ≠ [] := by
      intro he
      rw [he] at hc
      exact ha hc
    obtain ⟨before, a, rest, rfl, hclaim⟩ := exists_claim hne
    -- the apply was queued when it was claimed, and so the plan was finished
    have hb : (r₀.after before).Coupled := hnew.after before
    rcases hb.claim_cases .apply a with ⟨hn, -⟩ | ⟨agent, -, hs, -⟩
    · exact absurd hn hclaim
    obtain ⟨hp, -⟩ := hb.phases_eq hs rfl
    obtain ⟨early, b, late, result, rfl, hact, he, hplanning⟩ := exists_finish (r := r₀) nofun hp
    have hearly : (r₀.after early).Coupled := hnew.after early
    obtain ⟨-, hpending⟩ := hearly.phases_eq hplanning rfl
    refine ⟨early, b, late ++ a :: rest, result, ?_, hact, he, hplanning,
      hearly.apply.unclaimed (.inl hpending)⟩
    rw [List.append_assoc, List.cons_append]

/-- Two agents compete for both phases of a run, and each of them gets one. -/
theorem claimed_once_race :
    let at' (second : ℤ) : Instant := ⟨second, 0⟩
    let r₀ := Run.new 1 { autoApply := true } (at' 0)
    let history : List Attempt :=
      [⟨.start .plan "agent-1", at' 1, at' 1⟩, ⟨.enqueuePlan, at' 2, at' 2⟩,
        ⟨.start .plan "agent-1", at' 3, at' 3⟩, ⟨.start .plan "agent-2", at' 3, at' 3⟩,
        ⟨.finish .plan ⟨false, some ⟨1, 0, 0⟩⟩, at' 4, at' 5⟩,
        ⟨.start .apply "agent-2", at' 6, at' 6⟩, ⟨.start .apply "agent-1", at' 6, at' 6⟩]
    r₀.claimants .plan history = ["agent-1"] ∧ r₀.claimants .apply history = ["agent-2"] ∧
      (∀ more, (((r₀.after history).after more).phase .apply).claimedBy = some "agent-2") ∧
      ∃ before a rest result, history = before ++ a :: rest ∧ a.action = .finish .plan result ∧
        result.errored = false ∧ (r₀.after before).status = .planning ∧
          (r₀.after before).apply.claimedBy = none := by
  intro at' r₀ history
  obtain ⟨-, -, hkeeps, -, hfinish⟩ := claimed_once 1 { autoApply := true } (at' 0) history .apply
  exact ⟨by decide, by decide, hkeeps "agent-2" (by decide), hfinish (by decide)⟩

end Run

end Provision
