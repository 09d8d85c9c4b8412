import Mathlib.Logic.Function.Basic
import Mathlib.Logic.Relation
import Provision.Agent.Basic
import Provision.Proofs.Ledger.Deed
import Provision.Proofs.Ledger.Move

/-!
# Agents that share a store

A `Fleet` is any number of agents on one ledger, with a trace of the work they did. Everything that
happens in it is one of a few small moves, in any order: somebody else makes a call, an agent claims a
phase or passes on a cancel, a job takes its next step.

* `Job.Goes`: the steps of a job.
* `Fleet.Move`: the moves. What an agent claims need not be what is stored, nor what anybody announced.
* `Fleet.covers_handle`, `Fleet.covers_rescan`, `Fleet.covers_join`: what an agent does with an event,
  in a rescan and at the end of a job comes to such moves.
-/

namespace Provision

deriving instance DecidableEq for Job.Stage, Job

/-- What an agent is doing. -/
inductive Worker.Mode
  /-- Waiting to subscribe. -/
  | waiting
  | following
  /-- Asked to stop, and waiting for its jobs to end. -/
  | draining
  | stopped
  deriving DecidableEq, Repr

/-- An agent at work. -/
structure Worker where
  agent : Agent
  mode : Worker.Mode := .waiting

/-- Something done for a phase. -/
inductive Work
  /-- The phase was claimed. -/
  | claimed
  /-- The phase was handed to the runner. -/
  | executed
  /-- The runner wrote to the log. -/
  | wrote (isStored : Bool)
  /-- The runner returned. -/
  | returned (verdict : Verdict)
  /-- The log was closed, or it was tried to. -/
  | closed (isClosed : Bool)
  /-- The result was reported. -/
  | finished (result : PhaseResult)
  deriving DecidableEq, Repr

/-- How a job goes on, with what it does. -/
inductive Job.Goes : Job × Ledger → List Work → Job × Ledger → Prop
  /-- The phase is handed to the runner. -/
  | begin_ {j : Job} {l : Ledger} : j.stage = .claimed → Goes (j, l) [.executed] (j.begin_, l)
  /-- The runner writes. -/
  | write {j : Job} {l : Ledger} (data : Text.Bytes) : j.stage = .executing →
      Goes (j, l) [.wrote (Job.write data (j, l)).1.isOk] (Job.write data (j, l)).2
  /-- The runner returns. -/
  | return_ {j : Job} {l : Ledger} (verdict : Verdict) : j.stage = .executing →
      Goes (j, l) [.returned verdict] (j.return_ verdict, l)
  | close {j : Job} {l : Ledger} {verdict : Verdict} : j.stage = .returned verdict →
      Goes (j, l) [.closed (Job.closeLog (j, l)).2.1.writer.isClosed] (Job.closeLog (j, l)).2
  | conclude {j : Job} {l : Ledger} {verdict : Verdict} : j.stage = .closed verdict →
      Goes (j, l) [] (j.conclude, l)
  | report {j : Job} {l : Ledger} {result : PhaseResult} : j.stage = .reporting result →
      Goes (j, l) [.finished result] (Job.report (j, l)).2

/-- Something that a job did. -/
structure Act (ι : Type) where
  agent : ι
  /-- The number of the job. -/
  job : ℕ
  run : String
  phase : PhaseKind
  work : Work

/-- The job that did something. -/
def Act.doer {ι : Type} (a : Act ι) : ι × ℕ :=
  (a.agent, a.job)

/-- The phase for which something was done. -/
def Act.subject {ι : Type} (a : Act ι) : String × PhaseKind :=
  (a.run, a.phase)

/-- Agents that share a store. -/
structure Fleet (ι : Type) where
  ledger : Ledger := {}
  workers : ι → Worker
  /-- What the jobs did, oldest first. -/
  trace : List (Act ι) := []

namespace Fleet

variable {ι : Type} [DecidableEq ι]

/-- An agent. -/
def agent (f : Fleet ι) (i : ι) : Agent :=
  (f.workers i).agent

/-- What an agent is doing. -/
def mode (f : Fleet ι) (i : ι) : Worker.Mode :=
  (f.workers i).mode

/-- Something that a job of an agent did. -/
def act (i : ι) (j : Job) (work : Work) : Act ι :=
  ⟨i, j.number, j.spec.run, j.spec.phase, work⟩

/-- What a job did, according to a trace. -/
def courseIn (trace : List (Act ι)) (i : ι) (number : ℕ) : List Work :=
  (trace.filter fun a => decide (a.doer = (i, number))).map (·.work)

/-- What a job did. -/
def course (f : Fleet ι) (i : ι) (number : ℕ) : List Work :=
  courseIn f.trace i number

/-- What was done for a phase, by whomever. -/
def history (f : Fleet ι) (run : String) (kind : PhaseKind) : List Work :=
  (f.trace.filter fun a => decide (a.subject = (run, kind))).map (·.work)

/-- The fleet with another state of an agent. -/
def put (f : Fleet ι) (i : ι) (w : Worker) : Fleet ι :=
  { f with workers := Function.update f.workers i w }

/-- The fleet after a change of an agent. -/
def revise (f : Fleet ι) (i : ι) (change : Agent → Agent) : Fleet ι :=
  f.put i { f.workers i with agent := change (f.agent i) }

/-- The fleet with an agent that does something else. -/
def turn (f : Fleet ι) (i : ι) (mode : Worker.Mode) : Fleet ι :=
  f.put i { f.workers i with mode }

/-- The fleet after an agent tried to claim a phase. -/
def claim (f : Fleet ι) (i : ι) (x : Run) : Fleet ι :=
  let r := (Agent.claim x (f.agent i, f.ledger)).2
  { f.revise i fun _ => r.1 with
    ledger := r.2
    trace := f.trace ++ (r.1.jobs.drop (f.agent i).jobs.length).map (act i · .claimed) }

/-- The fleet after a job did something, with the job and the ledger as they are then. -/
def work (f : Fleet ι) (i : ι) (j : Job) (l : Ledger) (works : List Work) : Fleet ι :=
  { f.revise i (·.putJob j) with
    ledger := l
    trace := f.trace ++ works.map (act i j) }

/-- What happens in a fleet, if others make no calls but the permitted ones. -/
inductive Move (permits : Request → Prop) (f : Fleet ι) : Fleet ι → Prop
  /-- The clock is read anew. -/
  | tick (now : Instant) : Move permits f { f with ledger := { f.ledger with clock := now } }
  /-- Somebody else makes a call. -/
  | request (c : Request) : permits c → Move permits f { f with ledger := (c.perform f.ledger).2 }
  | subscribe (i : ι) : f.mode i = .waiting → Move permits f (f.turn i .following)
  /-- The subscription ended. -/
  | leave (i : ι) : f.mode i = .following → Move permits f (f.turn i .waiting)
  /-- An agent tries to claim a phase of which it was told, or which it found in the store. -/
  | claim (i : ι) (x : Run) : f.mode i = .following → Move permits f (f.claim i x)
  | mark (i : ι) (hasSkipped : Bool) : f.mode i = .following →
      Move permits f (f.revise i fun a => { a with hasSkipped })
  /-- An agent passes on a cancel. -/
  | signal (i : ι) (run : String) (force : Bool) : f.mode i = .following →
      Move permits f (f.revise i (·.signal run force))
  /-- An agent puts away a job that has ended. -/
  | remove (i : ι) (j : Job) : f.mode i = .following ∨ f.mode i = .draining →
      j ∈ (f.agent i).jobs → j.hasEnded = true → Move permits f (f.revise i (·.remove j.number))
  /-- An agent is asked to stop. -/
  | stop (i : ι) : f.mode i = .waiting ∨ f.mode i = .following →
      Move permits f ((f.revise i (·.cancelAll)).turn i .draining)
  /-- All jobs have been joined. -/
  | quit (i : ι) : f.mode i = .draining → (f.agent i).jobs = [] →
      Move permits f (f.turn i .stopped)
  | job (i : ι) {j : Job} {works : List Work} {t : Job × Ledger} : j ∈ (f.agent i).jobs →
      Job.Goes (j, f.ledger) works t → Move permits f (f.work i t.1 t.2 works)

/-- Any number of moves. -/
abbrev Moves (permits : Request → Prop) : Fleet ι → Fleet ι → Prop :=
  Relation.ReflTransGen (Move permits)

/-- The agents before they begin, each with its name and the number of its slots. -/
def idle (agents : ι → String × ℕ) : Fleet ι where
  workers i := { agent := { id := (agents i).1, concurrency := (agents i).2 } }

/-- What comes about from agents that begin on an empty store. -/
def Reachable (permits : Request → Prop) (f : Fleet ι) : Prop :=
  ∃ agents, Moves permits (idle agents) f

variable {permits : Request → Prop} {f f' f'' : Fleet ι} {i : ι}

theorem agent_put (f : Fleet ι) (i : ι) (w : Worker) : (f.put i w).agent i = w.agent :=
  congrArg Worker.agent (Function.update_self ..)

theorem mode_put (f : Fleet ι) (i : ι) (w : Worker) : (f.put i w).mode i = w.mode :=
  congrArg Worker.mode (Function.update_self ..)

/-- **What holds of all agents** still does when it holds of the new state of the one that changed. -/
theorem forall_put {P : ι → Worker → Prop} {w : Worker} (hw : P i w)
    (ho : ∀ k ≠ i, P k (f.workers k)) : ∀ k, P k ((f.put i w).workers k) :=
  (Function.forall_update_iff f.workers P).mpr ⟨hw, ho⟩

theorem put_put (f : Fleet ι) (i : ι) (w w' : Worker) : (f.put i w).put i w' = f.put i w' := by
  unfold put
  rw [Function.update_idem]

theorem turn_revise (f : Fleet ι) (i : ι) (change : Agent → Agent) (mode : Worker.Mode) :
    (f.revise i change).turn i mode = f.put i ⟨change (f.agent i), mode⟩ := by
  have hw : (f.revise i change).workers i = { f.workers i with agent := change (f.agent i) } :=
    Function.update_self ..
  rw [turn, hw]
  exact put_put ..

theorem moves_of_ledger {l : Ledger} (h : Relation.ReflTransGen (Ledger.Move permits) f.ledger l) :
    Moves permits f { f with ledger := l } := by
  induction h with
  | refl => exact .refl
  | tail _ hm ih =>
    cases hm with
    | tick now => exact ih.tail (.tick now)
    | request c hc _ => exact ih.tail (.request c hc)

theorem moves_after {calls : List Request} (hp : ∀ c ∈ calls, permits c) :
    Moves permits f { f with ledger := f.ledger.after calls } := by
  induction calls generalizing f with
  | nil => exact .refl
  | cons c calls ih =>
    exact .head (.request c (hp c List.mem_cons_self)) (ih fun x hx => hp x (List.mem_cons_of_mem c hx))

/-! ## What an agent does -/

/-- A step of an agent comes to moves of the fleet. -/
def Covers {α : Type} (permits : Request → Prop) (f : Fleet ι) (i : ι) (x : Agent.Step α) : Prop :=
  ∃ f', Moves permits f f' ∧ f'.ledger = (x (f.agent i, f.ledger)).2.2 ∧
    f'.workers = (f.revise i fun _ => (x (f.agent i, f.ledger)).2.1).workers

section Covers

variable {α β : Type}

theorem covers_pure (a : α) : Covers permits f i (pure a : Agent.Step α) := by
  refine ⟨f, .refl, rfl, ?_⟩
  exact (Function.update_eq_self i f.workers).symm

theorem covers_bind {x : Agent.Step α} {g : α → Agent.Step β} (hm : f.mode i = .following)
    (hx : Covers permits f i x)
    (hg : ∀ a f', f'.mode i = .following → Covers permits f' i (g a)) :
    Covers permits f i (x >>= g) := by
  obtain ⟨f₁, hf₁, hl₁, hw₁⟩ := hx
  have hi : f₁.workers i =
      { f.workers i with agent := (x (f.agent i, f.ledger)).2.1 } := by
    rw [hw₁]
    exact Function.update_self ..
  have hm₁ : f₁.mode i = .following := by
    rw [mode, hi]
    exact hm
  obtain ⟨f₂, hf₂, hl₂, hw₂⟩ := hg (x (f.agent i, f.ledger)).1 f₁ hm₁
  have ha : (f₁.agent i, f₁.ledger) = (x (f.agent i, f.ledger)).2 := by
    rw [agent, hi, hl₁]
  rw [ha] at hl₂ hw₂
  refine ⟨f₂, hf₁.trans hf₂, hl₂, hw₂.trans ?_⟩
  change Function.update f₁.workers i _ = Function.update f.workers i _
  rw [hi, hw₁]
  exact Function.update_idem ..

theorem covers_modify (change : Agent → Agent) (hc : Move permits f (f.revise i change)) :
    Covers permits f i (modify fun s => (change s.1, s.2)) :=
  ⟨_, .single hc, rfl, rfl⟩

theorem covers_claim (x : Run) (hm : f.mode i = .following) :
    Covers permits f i (Agent.claim x) :=
  ⟨_, .single (.claim i x hm), rfl, rfl⟩

theorem covers_claimAll (runs : List Run) (hm : f.mode i = .following) :
    Covers permits f i (Agent.claimAll runs) := by
  induction runs generalizing f with
  | nil => exact covers_pure false
  | cons x runs ih =>
    refine covers_bind hm (covers_claim x hm) fun claimed f₁ hm₁ => ?_
    exact covers_bind hm₁ (ih hm₁) fun skipped f₂ _ => covers_pure _

/-- **A rescan.** -/
theorem covers_rescan (hm : f.mode i = .following) : Covers permits f i Agent.rescan := by
  refine covers_bind (x := get) hm (covers_pure (f.agent i, f.ledger)) fun s f₁ hm₁ => ?_
  refine covers_bind hm₁ (covers_claimAll _ hm₁) fun skipped f₂ hm₂ => ?_
  exact covers_modify (fun a => { a with hasSkipped := skipped }) (.mark i skipped hm₂)

/-- **An event**, be it lost, late or repeated. -/
theorem covers_handle (e : Event) (hm : f.mode i = .following) :
    Covers permits f i (Agent.handle e) := by
  have hclaim (x : Run) : Covers permits f i (do
      let claimed ← Agent.claim x
      modify fun s => ({ s.1 with hasSkipped := s.1.hasSkipped || !claimed }, s.2)) :=
    covers_bind hm (covers_claim x hm) fun claimed f₁ hm₁ =>
      covers_modify (fun a => { a with hasSkipped := a.hasSkipped || !claimed }) (.mark i _ hm₁)
  have hsignal (run : String) (force : Bool) :
      Covers permits f i (modify fun s => (s.1.signal run force, s.2)) :=
    covers_modify _ (.signal i run force hm)
  unfold Agent.handle
  split
  · split
    · exact hclaim _
    · exact hclaim _
    · exact hsignal _ _
    · exact hsignal _ _
    · exact covers_pure ()
  · exact covers_pure ()

/-- **The end of a job.** -/
theorem covers_join {j : Job} (hm : f.mode i = .following) (hj : j ∈ (f.agent i).jobs)
    (he : j.hasEnded = true) : Covers permits f i (Agent.join j.number) := by
  refine covers_bind hm (covers_modify _ (.remove i j (.inl hm) hj he)) fun _ f₁ hm₁ => ?_
  refine covers_bind (x := get) hm₁ (covers_pure (f₁.agent i, f₁.ledger)) fun s f₂ hm₂ => ?_
  split_ifs
  · exact covers_rescan hm₂
  · exact covers_pure ()

end Covers

end Fleet

end Provision
