import Provision.Proofs.Agent.Underway
import Provision.Proofs.Ledger.Later
import Provision.Proofs.Run.Edit

/-!
# An agent that watches a ledger

`Watch` is one agent with its sessions. It subscribes, claims the queued phases that it finds in the
store one after the other, and then takes what was announced since, in order, while users, schedulers
and other agents go on. A job that reports its result gives its slot back in a step of its own, so that
the agent may hear of the result while the slot is still taken.

* `Agent.claims_claim`, `Agent.handles_handle`: what a claim comes to, and what is made of an event.
* `Watch.Step`: the steps. Nobody but its job reports a result for a phase that the agent executes.
* `Watch.steps_rescan`, `Watch.steps_join`, `Watch.steps_report`: what an agent and a job do as a whole
  comes to such steps.

The agent of a watch has not been asked to stop. When it is, every job in flight is asked to stop at once
(`Agent.cancelAll`), whatever events it was handed.
-/

namespace Provision

/-- Whether a phase of the run waits for an agent. -/
def Run.IsQueued (r : Run) : Prop :=
  ∃ kind : PhaseKind, r.status = kind.queued

theorem Run.isQueued_iff (r : Run) :
    r.IsQueued ↔ r.status = .planQueued ∨ r.status = .applyQueued := by
  constructor
  · rintro ⟨kind, h⟩
    cases kind with
    | plan => exact .inl h
    | apply => exact .inr h
  · rintro (h | h)
    · exact ⟨.plan, h⟩
    · exact ⟨.apply, h⟩

namespace Run.IsQueued

variable {r : Run} (h : r.IsQueued)
include h

theorem ne_pending : r.status ≠ .pending := by
  obtain ⟨kind, h⟩ := h
  rw [h]
  cases kind <;> decide

theorem not_done : r.isDone = false := by
  obtain ⟨kind, h⟩ := h
  unfold isDone
  rw [h]
  cases kind <;> rfl

theorem not_executing (kind : PhaseKind) : ¬ (r.status = kind.executing ∨ r.IsCanceled) := by
  obtain ⟨k, hk⟩ := h
  unfold IsCanceled
  rw [hk]
  cases k <;> cases kind <;> decide

end Run.IsQueued

/-- The run whose status an event reports. -/
def Event.reported? (e : Event) : Option Run :=
  match e.type, e.payload with
  | .runStatusUpdate, .run x => some x
  | _, _ => none

theorem Event.payload_of_reported? {e : Event} {x : Run} (h : e.reported? = some x) :
    e.payload = .run x := by
  unfold reported? at h
  split at h
  · next hp => exact hp.trans (congrArg Payload.run (Option.some.inj h))
  · cases h

theorem PhaseKind.queuedPhase?_eq_some_iff {s : RunStatus} {kind : PhaseKind} :
    s.queuedPhase? = some kind ↔ s = kind.queued := by
  cases s <;> cases kind <;> decide

namespace Fleet

/-- The fleet of a single agent, which follows events. -/
def only (a : Agent) (l : Ledger) : Fleet Unit where
  ledger := l
  workers _ := ⟨a, .following⟩

theorem Covers.later {ι α : Type} [DecidableEq ι] {f : Fleet ι} {i : ι} {x : Agent.Step α}
    (h : Covers (fun _ => False) f i x) : f.ledger.Later (x (f.agent i, f.ledger)).2.2 := by
  obtain ⟨f', hm, hl, -⟩ := h
  exact hl ▸ .of_moves hm.ledger

end Fleet

namespace Agent

/-- What a claim comes to, with its answer. -/
inductive Claims (x : Run) (a : Agent) (l : Ledger) : Bool × Agent × Ledger → Prop
  /-- There was nothing to claim: the phase was not stored as queued, or it is executed here. -/
  | vain : (x.IsQueued → l.store.run? x.id = some x → a.isExecuting x.id = true) →
      Claims x a l (true, a, l)
  /-- There was no free slot. -/
  | skipped : a.slots ≤ a.busy → Claims x a l (false, a, l)
  | taken (kind : PhaseKind) (r r' : Run) : x.status = kind.queued →
      l.store.run? x.id = some r → r.Outcome l.clock l.clock (.start kind a.id) r' →
      a.busy < a.slots →
      Claims x a l (true, { a with
        jobs := a.jobs ++ [Job.ofRun a.claims r' kind], claims := a.claims + 1 }, l.putRun r')

/-- **What a claim comes to.** -/
theorem claims_claim (x : Run) (a : Agent) (l : Ledger) : Claims x a l (claim x (a, l)) := by
  unfold claim
  split
  · next hn =>
    refine .vain fun ⟨kind, hk⟩ => ?_
    rw [PhaseKind.queuedPhase?_eq_some_iff.mpr hk] at hn
    cases hn
  next kind hk =>
  rw [PhaseKind.queuedPhase?_eq_some_iff] at hk
  dsimp only
  by_cases he : a.isExecuting x.id = true
  · rw [if_pos he]
    exact .vain fun _ _ => he
  by_cases hb : a.slots ≤ a.busy
  · rw [if_neg he, if_pos hb]
    exact .skipped hb
  rw [if_neg he, if_neg hb, Service.startPhase_apply]
  rcases hr : l.store.run? x.id with _ | r
  · refine .vain fun _ hx => ?_
    cases hr.symm.trans hx
  dsimp only
  rcases hs : r.start kind a.id l.clock with e | r'
  · refine .vain fun _ hx => ?_
    -- a run that is stored as queued can be started
    obtain rfl := Option.some.inj (hr.symm.trans hx)
    cases hs.symm.trans (Run.start_of_queued hk a.id l.clock)
  · exact .taken kind r r' hk hr (Run.outcome_of_start hs) (Nat.lt_of_not_le hb)

/-- What an agent does with an event. -/
inductive Handles (e : Event) (a : Agent) (l : Ledger) : Agent × Ledger → Prop
  | claimed (x : Run) : e.reported? = some x → x.IsQueued →
      Handles e a l ({ (claim x (a, l)).2.1 with
        hasSkipped := (claim x (a, l)).2.1.hasSkipped || !(claim x (a, l)).1 }, (claim x (a, l)).2.2)
  | canceled (x : Run) (force : Bool) : e.reported? = some x →
      x.status = (if force then .forceCanceled else .canceled) →
      Handles e a l (a.signal x.id force, l)
  /-- The event is about something else. -/
  | ignored : (∀ x, e.reported? = some x → ¬ x.IsQueued ∧ ¬ x.IsCanceled) → Handles e a l (a, l)

/-- **What an agent does with an event.** -/
theorem handles_handle (e : Event) (a : Agent) (l : Ledger) : Handles e a l (handle e (a, l)).2 := by
  obtain ⟨step, hstep⟩ : ∃ step, step = handle e := ⟨_, rfl⟩
  rw [← hstep]
  unfold handle at hstep
  split at hstep
  · next x ht hp =>
    have hx : e.reported? = some x := by
      unfold Event.reported?
      rw [ht, hp]
    split at hstep
    · next hs => exact hstep ▸ .claimed x hx ⟨.plan, hs⟩
    · next hs => exact hstep ▸ .claimed x hx ⟨.apply, hs⟩
    · next hs => exact hstep ▸ .canceled x false hx hs
    · next hs => exact hstep ▸ .canceled x true hx hs
    · next h₁ h₂ h₃ h₄ =>
      rw [hstep]
      refine .ignored fun y hy => ?_
      obtain rfl := Option.some.inj (hx.symm.trans hy)
      exact ⟨fun hq => ((Run.isQueued_iff x).mp hq).elim h₁ h₂, fun hc => hc.elim h₃ h₄⟩
  · next hn =>
    rw [hstep]
    refine .ignored fun x hx => ?_
    unfold Event.reported? at hx
    split at hx
    · next y ht hp => exact absurd hp (hn y ht)
    · cases hx

variable {a : Agent} {l : Ledger}

theorem claim_later (x : Run) (a : Agent) (l : Ledger) : l.Later (claim x (a, l)).2.2 :=
  (Fleet.covers_claim (f := .only a l) (i := ()) x rfl).later

theorem handle_later (e : Event) (a : Agent) (l : Ledger) : l.Later (handle e (a, l)).2.2 :=
  (Fleet.covers_handle (f := .only a l) (i := ()) e rfl).later

theorem rescan_later (a : Agent) (l : Ledger) : l.Later (rescan (a, l)).2.2 :=
  (Fleet.covers_rescan (f := .only a l) (i := ()) rfl).later

theorem join_later {j : Job} (hj : j ∈ a.jobs) (he : j.hasEnded = true) (l : Ledger) :
    l.Later (join j.number (a, l)).2.2 :=
  (Fleet.covers_join (f := .only a l) (i := ()) rfl hj he).later

theorem claim_same (x : Run) (a : Agent) (l : Ledger) :
    (claim x (a, l)).2.1.concurrency = a.concurrency ∧
      (claim x (a, l)).2.1.hasSkipped = a.hasSkipped ∧
      a.jobs.length ≤ (claim x (a, l)).2.1.jobs.length := by
  have hc := claims_claim x a l
  generalize claim x (a, l) = s at hc
  cases hc with
  | vain | skipped => exact ⟨rfl, rfl, le_rfl⟩
  | taken => exact ⟨rfl, rfl, by simp⟩

theorem handle_same (e : Event) (a : Agent) (l : Ledger) :
    (handle e (a, l)).2.1.concurrency = a.concurrency ∧
      (a.hasSkipped = true → (handle e (a, l)).2.1.hasSkipped = true) := by
  have hh := handles_handle e a l
  generalize (handle e (a, l)).2 = s at hh
  cases hh with
  | claimed x _ _ =>
    obtain ⟨hconcurrency, hsame, -⟩ := claim_same x a l
    exact ⟨hconcurrency, fun h => Bool.or_eq_true_iff.mpr (.inl (hsame.trans h))⟩
  | canceled | ignored => exact ⟨rfl, fun h => h⟩

/-- **The end of a job**: it is put away, and if a phase was skipped, there is a rescan. -/
theorem join_apply (number : ℕ) (a : Agent) (l : Ledger) :
    join number (a, l) =
      if a.hasSkipped = true then rescan (a.remove number, l) else ((), (a.remove number, l)) := by
  change (if a.hasSkipped = true then rescan else pure ()) (a.remove number, l) = _
  split_ifs <;> rfl

end Agent

theorem Service.finishPhase_moves (run : String) (kind : PhaseKind) (result : PhaseResult)
    (l : Ledger) : Relation.ReflTransGen (Ledger.Move (· = .finishPhase run kind result)) l
      (finishPhase run kind result l).2 :=
  Ledger.moves_call rfl rfl fun _ h => by cases h

/-- What an agent is doing. -/
inductive Watch.Mode
  /-- It has no subscription. -/
  | away
  /-- It is about to look for queued phases in the store. -/
  | due
  /-- It claims what it found there. Some runs are still ahead, and perhaps one was skipped. -/
  | scanning (rest : List Run) (hasSkipped : Bool)
  | following

/-- An agent that watches a ledger. -/
structure Watch where
  ledger : Ledger := {}
  agent : Agent
  mode : Watch.Mode := .away
  /-- How many of the announced events are behind the subscription. -/
  reached : ℕ := 0
  /-- The events that the agent was handed, in all of its sessions. -/
  heard : List Event := []
  /-- The jobs that have reported their results. They may still hold their slots. -/
  filed : List ℕ := []

namespace Watch

/-- The runs with a phase that waits for an agent. -/
def queued (w : Watch) : List Run :=
  w.ledger.store.listRuns { statuses := some [.planQueued, .applyQueued] }

/-- Whether the result of a job is still to be reported. -/
def IsOpen (w : Watch) (j : Job) : Prop :=
  j.hasEnded = false ∧ j.number ∉ w.filed

/-- Others may do this: it is no result for a phase that the agent executes. -/
def Permits (w : Watch) (d : Deed) : Prop :=
  ∀ j ∈ w.agent.jobs, w.IsOpen j → ∀ result,
    d ≠ .request (.finishPhase j.spec.run j.spec.phase result)

/-- The watch after a step of the agent. -/
def act {α : Type} (w : Watch) (x : Agent.Step α) : Watch :=
  { w with agent := (x (w.agent, w.ledger)).2.1, ledger := (x (w.agent, w.ledger)).2.2 }

/-- The watch when the agent goes over to something else. -/
def turn (w : Watch) (mode : Mode) : Watch :=
  { w with mode }

/-- The watch after a job that has ended was put away. If a phase was skipped, it is time to look again. -/
def joined (w : Watch) (number : ℕ) : Watch :=
  { w with agent := w.agent.remove number }.turn (if w.agent.hasSkipped then .due else .following)

/-- What happens to an agent and to the ledger it watches, as long as nobody asks the agent to stop. -/
inductive Step (w : Watch) : Watch → Prop
  /-- Somebody else does something. -/
  | other (d : Deed) : w.Permits d → Step w { w with ledger := d.on w.ledger }
  | subscribe : w.mode = .away →
      Step w ({ w with reached := w.ledger.announced.length }.turn .due)
  /-- The subscription ends. -/
  | leave : w.mode = .following → Step w (w.turn .away)
  | look : w.mode = .due → Step w (w.turn (.scanning w.queued false))
  /-- The next phase is claimed, unless there is no slot for it. -/
  | claim {x : Run} {rest : List Run} {s : Bool} : w.mode = .scanning (x :: rest) s →
      Step w ((w.act (Agent.claim x)).turn
        (.scanning rest (s || !(Agent.claim x (w.agent, w.ledger)).1)))
  /-- All that was found has been looked at. -/
  | settle {s : Bool} : w.mode = .scanning [] s →
      Step w ({ w with agent := { w.agent with hasSkipped := s } }.turn .following)
  /-- The agent is handed the next event. -/
  | deliver {e : Event} : w.mode = .following → w.ledger.announced[w.reached]? = some e →
      Step w { w.act (Agent.handle e) with reached := w.reached + 1, heard := w.heard ++ [e] }
  | join {j : Job} : w.mode = .following → j ∈ w.agent.jobs → j.hasEnded = true →
      Step w (w.joined j.number)
  /-- A job goes on. -/
  | job {j : Job} {works : List Work} {t : Job × Ledger} : j ∈ w.agent.jobs →
      Job.Goes (j, w.ledger) works t → t.1.hasEnded = false →
      Step w { w with agent := w.agent.putJob t.1, ledger := t.2 }
  /-- A job reports its result. -/
  | report {j : Job} {result : PhaseResult} : j ∈ w.agent.jobs → j.stage = .reporting result →
      j.number ∉ w.filed →
      Step w { w with
        ledger := (Service.finishPhase j.spec.run j.spec.phase result w.ledger).2
        filed := j.number :: w.filed }
  /-- A job that has reported gives its slot back. -/
  | end_ {j : Job} {result : PhaseResult} : j ∈ w.agent.jobs → j.stage = .reporting result →
      j.number ∈ w.filed → Step w { w with agent := w.agent.putJob { j with stage := .ended } }

/-- Any number of steps. -/
abbrev Steps : Watch → Watch → Prop :=
  Relation.ReflTransGen Step

/-- What comes about when an agent begins on an empty store. -/
def Reachable (id : String) (concurrency : ℕ) (w : Watch) : Prop :=
  Steps { agent := { id, concurrency } } w

variable {w w' : Watch} {j : Job}

/-- **Every step goes on to a later ledger.** -/
theorem Step.later (hs : Step w w') : w.ledger.Later w'.ledger := by
  cases hs with
  | other d _ => exact .deed d w.ledger
  | subscribe | leave | look | settle | join | end_ => exact .refl
  | @claim x _ _ _ => exact Agent.claim_later x w.agent w.ledger
  | @deliver e _ _ => exact Agent.handle_later e w.agent w.ledger
  | job _ hg _ => exact .of_moves hg.moves
  | report _ _ _ => exact .of_moves (Service.finishPhase_moves ..)

theorem Steps.later (hs : Steps w w') : w.ledger.Later w'.ledger := by
  induction hs with
  | refl => exact .refl
  | tail _ hs ih => exact ih.trans hs.later

/-! ## Whole reactions -/

theorem turn_eq_self {mode : Mode} (hm : w.mode = mode) : w.turn mode = w := by
  subst hm
  rfl

theorem steps_claimAll (runs : List Run) {s : Bool} (hm : w.mode = .scanning runs s) :
    Steps w ((w.act (Agent.claimAll runs)).turn
      (.scanning [] (s || (Agent.claimAll runs (w.agent, w.ledger)).1))) := by
  induction runs generalizing w s with
  | nil =>
    change Steps w (w.turn (.scanning [] (s || false)))
    rw [Bool.or_false, turn_eq_self hm]
  | cons x rest ih =>
    have hrest := ih (w := (w.act (Agent.claim x)).turn
      (.scanning rest (s || !(Agent.claim x (w.agent, w.ledger)).1))) rfl
    rw [Bool.or_assoc] at hrest
    exact .head (.claim hm) hrest

/-- **A rescan.** -/
theorem steps_rescan (hm : w.mode = .due) : Steps w ((w.act Agent.rescan).turn .following) :=
  .head (.look hm) ((steps_claimAll w.queued rfl).tail (.settle rfl))

/-- **The end of a job.** -/
theorem steps_join (hm : w.mode = .following) (hj : j ∈ w.agent.jobs) (he : j.hasEnded = true) :
    Steps w (w.act (Agent.join j.number)) := by
  refine .head (.join hm hj he) ?_
  rw [act, Agent.join_apply, joined]
  by_cases hs : w.agent.hasSkipped = true
  · rw [if_pos hs, if_pos hs, hm]
    exact steps_rescan rfl
  · rw [if_neg hs, if_neg hs, hm]
    exact .refl

/-- **A report**, and the end of the job with it. -/
theorem steps_report {result : PhaseResult} (hj : j ∈ w.agent.jobs)
    (hs : j.stage = .reporting result) (hn : j.number ∉ w.filed) :
    Steps w { w with
      agent := w.agent.putJob (Job.report (j, w.ledger)).2.1
      ledger := (Job.report (j, w.ledger)).2.2
      filed := j.number :: w.filed } := by
  rw [Job.report_eq hs]
  exact .head (.report hj hs hn) (.single (.end_ hj hs List.mem_cons_self))

/-! ## Courses -/

/-- The watch after calls that somebody else makes. -/
def after (w : Watch) (calls : List Request) : Watch :=
  { w with ledger := w.ledger.after calls }

/-- The watch after the agent has subscribed and claimed what it found in the store. -/
def arrived (w : Watch) : Watch :=
  (({ w with reached := w.ledger.announced.length }.turn .due).act Agent.rescan).turn .following

/-- The watch after the agent was handed the next event, if there is one. -/
def next (w : Watch) : Watch :=
  match w.ledger.announced[w.reached]? with
  | some e => { w.act (Agent.handle e) with reached := w.reached + 1, heard := w.heard ++ [e] }
  | none => w

theorem steps_after (w : Watch) {calls : List Request}
    (hc : ∀ c ∈ calls, ∀ run kind result, c ≠ .finishPhase run kind result) :
    Steps w (w.after calls) := by
  induction calls generalizing w with
  | nil => exact .refl
  | cons c calls ih =>
    have hp : w.Permits (.request c) := fun j _ _ result he =>
      hc c List.mem_cons_self _ _ result (Deed.request.inj he)
    exact .head (.other _ hp) (ih _ fun x hx => hc x (List.mem_cons_of_mem c hx))

theorem steps_arrived (hm : w.mode = .away) : Steps w w.arrived :=
  .head (.subscribe hm) (steps_rescan rfl)

theorem steps_next (hm : w.mode = .following) : Steps w w.next := by
  unfold next
  split
  · next e he => exact .single (.deliver hm he)
  · exact .refl

end Watch

end Provision
