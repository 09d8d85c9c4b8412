import Provision.Proofs.Agent.Underway
import Provision.Proofs.Scheduler.Calls
import Provision.Proofs.Scheduler.Node

/-!
# A scheduler and agents at work

A `Site` is a scheduler and any number of agents on one store, with how far each of them has followed the
announced events, which it hears in order.

* `Site.Turn`: users call, the scheduler and the agents react to what they hear, and jobs go on.
* `Site.Turn.parts`: as for the jobs, a site is a fleet, and as for the queues, a node.
* `Site.Reachable.canceled_of_abreast`: if jobs of two runs of a workspace are under way at once, one of
  the runs was canceled.
* `Site.two_runs_abreast`: that does happen, even if all events are heard in order.
-/

namespace Provision

/-- The calls of users. -/
def Request.IsUsers (c : Request) : Prop :=
  c.IsOutside ∧ ¬ c.IsWork

theorem Request.IsWork.isOutside {c : Request} (h : c.IsWork) : c.IsOutside := by
  cases c <;> first | exact h.elim | trivial

/-- A scheduler and agents at work on one store. -/
structure Site (ι : Type) where
  /-- The scheduler and the store. -/
  node : Node := {}
  workers : ι → Worker
  /-- How many events have reached an agent. -/
  reached : ι → ℕ := fun _ => 0

namespace Site

variable {ι : Type} [DecidableEq ι]

def ledger (p : Site ι) : Ledger :=
  p.node.state.2

/-- An agent. -/
def agent (p : Site ι) (i : ι) : Agent :=
  (p.workers i).agent

/-- What an agent is doing. -/
def mode (p : Site ι) (i : ι) : Worker.Mode :=
  (p.workers i).mode

/-- The site with another ledger. -/
def keep (p : Site ι) (l : Ledger) : Site ι :=
  { p with node := ⟨(p.node.state.1, l), p.node.heard⟩ }

/-- The site after an agent took a step. -/
def react {α : Type} (p : Site ι) (i : ι) (x : Agent.Step α) (mode : Worker.Mode) : Site ι :=
  let r := (x (p.agent i, p.ledger)).2
  { p.keep r.2 with workers := Function.update p.workers i ⟨r.1, mode⟩ }

/-- The site after so many events have reached an agent. -/
def reach (p : Site ι) (i : ι) (count : ℕ) : Site ι :=
  { p with reached := Function.update p.reached i count }

/-- What happens at a site. -/
inductive Turn (p : Site ι) : Site ι → Prop
  /-- The clock is read anew, or a user makes a call. -/
  | user (l : Ledger) : p.ledger.Move Request.IsUsers l → Turn p (p.keep l)
  /-- The scheduler hears the next event. -/
  | hear (e : Event) : p.ledger.announced[p.node.heard]? = some e →
      Turn p { p with node := ⟨(Scheduler.dispatch e p.node.state).2, p.node.heard + 1⟩ }
  | seed : Turn p { p with node := ⟨(Scheduler.seed p.node.state).2, p.node.heard⟩ }
  /-- An agent subscribes, and looks for phases that are queued already. -/
  | subscribe (i : ι) : p.mode i = .waiting →
      Turn p ((p.react i Agent.rescan .following).reach i p.ledger.announced.length)
  /-- The next event reaches an agent. -/
  | deliver (i : ι) (e : Event) : p.mode i = .following → p.ledger.announced[p.reached i]? = some e →
      Turn p ((p.react i (Agent.handle e) .following).reach i (p.reached i + 1))
  /-- The subscription ended. -/
  | leave (i : ι) : p.mode i = .following → Turn p (p.react i (pure ()) .waiting)
  | join (i : ι) (j : Job) : p.mode i = .following → j ∈ (p.agent i).jobs → j.hasEnded = true →
      Turn p (p.react i (Agent.join j.number) .following)
  | job (i : ι) {j : Job} {works : List Work} {t : Job × Ledger} : j ∈ (p.agent i).jobs →
      Job.Goes (j, p.ledger) works t →
      Turn p (p.react i (fun s => ((), (s.1.putJob t.1, t.2))) (p.mode i))
  /-- An agent is asked to stop. -/
  | stop (i : ι) : p.mode i = .waiting ∨ p.mode i = .following →
      Turn p (p.react i (fun s => ((), (s.1.cancelAll, s.2))) .draining)
  /-- A job ends while the agent stops. -/
  | drain (i : ι) (j : Job) : p.mode i = .draining → j ∈ (p.agent i).jobs → j.hasEnded = true →
      Turn p (p.react i (fun s => ((), (s.1.remove j.number, s.2))) .draining)
  | quit (i : ι) : p.mode i = .draining → (p.agent i).jobs = [] →
      Turn p (p.react i (pure ()) .stopped)

/-- The agents before they begin, each with its name and the number of its slots. -/
def idle (agents : ι → String × ℕ) : Site ι where
  workers i := { agent := { id := (agents i).1, concurrency := (agents i).2 } }

/-- What comes about at a site where nothing is stored. -/
def Reachable (p : Site ι) : Prop :=
  ∃ agents, Relation.ReflTransGen Turn (idle agents) p

/-- The agents, with a trace of their work. -/
def fleet (p : Site ι) (trace : List (Act ι)) : Fleet ι :=
  ⟨p.ledger, p.workers, trace⟩

variable {p p' : Site ι} {i : ι} {l : Ledger}

/-! ## The parts of a site -/

theorem moves_of_covers {α : Type} {x : Agent.Step α} {f : Fleet ι} (hm : f.mode i = .following)
    (hx : Fleet.Covers (fun _ => False) f i x) :
    ∃ trace, Fleet.Moves (fun _ => False) f ⟨(x (f.agent i, f.ledger)).2.2,
      Function.update f.workers i ⟨(x (f.agent i, f.ledger)).2.1, .following⟩, trace⟩ := by
  obtain ⟨⟨l, ws, trace⟩, hf, hl, hw⟩ := hx
  obtain rfl : l = _ := hl
  obtain rfl : ws = _ := hw
  exact ⟨trace, hm ▸ hf⟩

/-- **The parts of a site**: either the agents are as before and the ledger changes, without a result
being reported, or the agents do something. -/
theorem Turn.parts (hm : Turn p p') :
    (p'.workers = p.workers ∧ p.node.Move p'.node ∧
      ∃ permits, (∀ run kind result, ¬ permits (.finishPhase run kind result)) ∧
        Relation.ReflTransGen (Ledger.Move permits) p.ledger p'.ledger) ∨
    p'.node = (p.keep p'.ledger).node ∧ ∀ trace, ∃ trace',
      Fleet.Moves (fun _ => False) (p.fleet trace) (p'.fleet trace') := by
  have hsched : ∀ run kind result, ¬ Request.IsScheduling (.finishPhase run kind result) :=
    fun _ _ _ h => h
  cases hm with
  | user l hl =>
    refine .inl ⟨rfl, .ledger l (hl.mono fun c hc => hc.1), Request.IsUsers, ?_, .single hl⟩
    exact fun run kind result h => h.2 trivial
  | hear e he => exact .inl ⟨rfl, .hear e he, _, hsched, Scheduler.dispatch_moves e p.node.state⟩
  | seed => exact .inl ⟨rfl, .seed, _, hsched, Scheduler.seed_moves p.node.state⟩
  | subscribe i hi =>
    refine .inr ⟨rfl, fun trace => ?_⟩
    have hm : Fleet.Move (fun _ => False) (p.fleet trace) ((p.fleet trace).turn i .following) :=
      .subscribe i hi
    have hf : ((p.fleet trace).turn i .following).mode i = .following := Fleet.mode_put ..
    obtain ⟨trace', hms⟩ := moves_of_covers hf (Fleet.covers_rescan hf)
    rw [Fleet.turn, Fleet.agent_put] at hms
    change Fleet.Moves _ _ ⟨_, Function.update (Function.update p.workers i _) i _, trace'⟩ at hms
    rw [Function.update_idem] at hms
    exact ⟨trace', .head hm hms⟩
  | deliver i e hi he => exact .inr ⟨rfl, fun trace => moves_of_covers hi (Fleet.covers_handle e hi)⟩
  | leave i hi => exact .inr ⟨rfl, fun trace => ⟨trace, .single (.leave i hi)⟩⟩
  | join i j hi hj he =>
    exact .inr ⟨rfl, fun trace => moves_of_covers hi (Fleet.covers_join hi hj he)⟩
  | job i hj hg => exact .inr ⟨rfl, fun trace => ⟨_, .single (.job i hj hg)⟩⟩
  | stop i hi =>
    refine .inr ⟨rfl, fun trace => ⟨trace, ?_⟩⟩
    have hm : Fleet.Move (fun _ => False) (p.fleet trace) _ := .stop i hi
    rw [Fleet.turn_revise] at hm
    exact .single hm
  | drain i j hi hj he =>
    refine .inr ⟨rfl, fun trace => ⟨trace, ?_⟩⟩
    rw [← hi]
    exact .single (.remove i j (.inr hi) hj he)
  | quit i hi hj => exact .inr ⟨rfl, fun trace => ⟨trace, .single (.quit i hi hj)⟩⟩

/-! ## Runs of one workspace -/

/-- What holds of every site. -/
structure Sound (p : Site ι) : Prop where
  node : p.node.Reachable
  fleet : ∃ trace, (p.fleet trace).Sound ∧ (p.fleet trace).Underway

theorem Turn.sound (hm : Turn p p') (h : p.Sound) : p'.Sound := by
  obtain ⟨trace, hs, hu⟩ := h.fleet
  rcases hm.parts with ⟨hw, hn, permits, hp, hl⟩ | ⟨hn, hf⟩
  · refine ⟨h.node.tail hn, trace, ?_⟩
    have hmoves := Fleet.moves_of_ledger (f := p.fleet trace) hl
    rw [fleet, hw]
    exact hmoves.underway hs hp hu
  · obtain ⟨trace', hf⟩ := hf trace
    refine ⟨?_, trace', hf.underway hs (fun _ _ _ h => h) hu⟩
    rw [hn]
    exact h.node.calls (Relation.ReflTransGen.mono (fun _ _ hm => hm.mono fun c hc => hc.isOutside)
      _ _ hf.ledger)

theorem Reachable.sound (h : p.Reachable) : p.Sound := by
  obtain ⟨agents, hm⟩ := h
  induction hm with
  | refl => exact ⟨.refl, [], .idle agents, Fleet.underway_idle agents⟩
  | tail _ hm ih => exact hm.sound ih

/-- A job of a run that is not speculative is under way: it was claimed, and no result was reported. -/
structure Executes (p : Site ι) (i : ι) (j : Job) (r : Run) : Prop where
  job : j ∈ (p.agent i).jobs
  unfinished : j.hasEnded = false
  run : r ∈ p.ledger.store.runs
  phase : j.spec.run = r.id
  queued : r.speculative = false

variable {i₁ i₂ : ι} {j j₁ j₂ : Job} {r r₁ r₂ : Run}

/-- While a job is under way its phase is executed, as far as the store knows. -/
theorem Executes.status (h : p.Executes i j r) (hs : p.Sound) :
    r.status = j.spec.phase.executing ∨ r.IsCanceled := by
  obtain ⟨trace, -, hu⟩ := hs.fleet
  exact (hu i j h.job h.unfinished).status r h.run h.phase.symm

theorem Executes.active (h : p.Executes i j r) (hs : p.Sound) (hc : ¬ r.IsCanceled) :
    r.isActive = true := by
  refine (Run.isActive_iff r).mpr ⟨h.queued, ?_⟩
  rw [Run.isDone, (h.status hs).resolve_right hc]
  cases j.spec.phase <;> decide

/-- **Jobs of two runs of a workspace are under way at once only if one of the runs was canceled.** A
canceled run has ended, so that its lock is given back and the next run is admitted, but its job goes on
until the runner returns. -/
theorem Reachable.canceled_of_abreast (h : p.Reachable) (h₁ : p.Executes i₁ j₁ r₁)
    (h₂ : p.Executes i₂ j₂ r₂) (hw : r₁.workspace = r₂.workspace) (hne : r₁.id ≠ r₂.id) :
    r₁.IsCanceled ∨ r₂.IsCanceled := by
  have hs := h.sound
  by_contra hc
  obtain ⟨hc₁, hc₂⟩ := not_or.mp hc
  have hsingle := hs.node.abreast.serial.toSingle
  obtain ⟨w, hwm, hid, -⟩ := hsingle.good.sound.ordered.home r₁ h₁.run
  have hcur₁ := hsingle.held w hwm r₁ (Store.mem_runsOf.mpr ⟨h₁.run, hid.symm⟩) (h₁.active hs hc₁)
  have hcur₂ := hsingle.held w hwm r₂ (Store.mem_runsOf.mpr ⟨h₂.run, hw ▸ hid.symm⟩)
    (h₂.active hs hc₂)
  exact hne (Option.some.inj (hcur₁.symm.trans hcur₂))

/-! ## A canceled run beside its successor -/

theorem Reachable.turn (h : p.Reachable) (hm : Turn p p') : p'.Reachable := by
  obtain ⟨agents, hms⟩ := h
  exact ⟨agents, hms.tail hm⟩

theorem Reachable.users (h : p.Reachable)
    (hl : Relation.ReflTransGen (Ledger.Move Request.IsUsers) p.ledger l) : (p.keep l).Reachable := by
  induction hl with
  | refl => exact h
  | tail _ hm ih => exact ih.turn (.user _ hm)

theorem Reachable.hearing (h : p.Reachable) (k : ℕ) :
    Reachable { p with node := p.node.hearing k } := by
  induction k generalizing p with
  | zero => exact h
  | succ k ih =>
    unfold Node.hearing
    split
    · next e he => exact ih (h.turn (.hear e he))
    · exact h

theorem mode_react {α : Type} (p : Site ι) (i : ι) (x : Agent.Step α) (mode : Worker.Mode) :
    (p.react i x mode).mode i = mode := by
  change (Function.update p.workers i _ i).mode = mode
  rw [Function.update_self]

/-- The site after up to so many events have reached an agent. -/
def following (p : Site ι) (i : ι) : ℕ → Site ι
  | 0 => p
  | k + 1 => match p.ledger.announced[p.reached i]? with
    | none => p
    | some e => ((p.react i (Agent.handle e) .following).reach i (p.reached i + 1)).following i k

theorem Reachable.following (h : p.Reachable) (hm : p.mode i = .following) (k : ℕ) :
    (p.following i k).Reachable := by
  induction k generalizing p with
  | zero => exact h
  | succ k ih =>
    unfold Site.following
    split
    · exact h
    · next e he =>
      exact ih (h.turn (.deliver i e hm he)) (mode_react ..)

/-- The job of the plan of one of the first runs. -/
def planJob (number run : ℕ) : Job :=
  Job.ofRun number
    (Run.new run { workspace := Identifier.fresh Workspace.stem 0 } ({} : Ledger).clock) .plan

/-- Two runs were created, and the scheduler has admitted one of them. -/
def admitted : Site Unit :=
  let p : Site Unit := idle fun _ => ("agent-1", 2)
  let p := p.keep (p.ledger.after [
    .createOrganization "acme",
    .createWorkspace { name := "prod", organization := "acme" },
    .createRun { workspace := Identifier.fresh Workspace.stem 0 },
    .createRun { workspace := Identifier.fresh Workspace.stem 0 }])
  { p with node := p.node.hearing 8 }

/-- The agent executes the plan of the admitted run. -/
def planning : Site Unit :=
  let p := (admitted.react () Agent.rescan .following).reach () admitted.ledger.announced.length
  p.react () (fun s => ((), (s.1.putJob (planJob 0 1).begin_, s.2))) (p.mode ())

/-- The admitted run is canceled, the agent executes what is queued then, and the scheduler and the agent
hear everything. -/
def abreast : Site Unit :=
  let p := planning.keep (planning.ledger.after [.cancel (planJob 0 1).spec.run])
  let p := { p with node := p.node.hearing 8 }
  let p := p.following () 8
  let p := p.react () (fun s => ((), (s.1.putJob (planJob 1 2).begin_, s.2))) (p.mode ())
  let p := { p with node := p.node.hearing 8 }
  p.following () 8

theorem reachable_admitted : admitted.Reachable := by
  have h : (idle fun _ : Unit => ("agent-1", 2)).Reachable := ⟨_, .refl⟩
  refine (h.users (Ledger.moves_after ?_ ?_)).hearing 8
  · simp [Request.IsUsers, Request.IsOutside, Request.IsWork]
  · decide +kernel

theorem reachable_planning : planning.Reachable := by
  have h := reachable_admitted.turn (.subscribe () (by decide +kernel))
  exact h.turn (.job () (j := planJob 0 1) (by decide +kernel) (.begin_ rfl))

theorem reachable_abreast : abreast.Reachable := by
  have hl : Relation.ReflTransGen (Ledger.Move Request.IsUsers) planning.ledger
      (planning.ledger.after [.cancel (planJob 0 1).spec.run]) :=
    Ledger.moves_after (by simp [Request.IsUsers, Request.IsOutside, Request.IsWork])
      (by decide +kernel)
  have h := (reachable_planning.users hl).hearing 8
  have h := (h.following (i := ()) (by decide +kernel) 8).turn
    (.job () (j := planJob 1 2) (by decide +kernel) (.begin_ rfl))
  exact (h.hearing 8).following (i := ()) (by decide +kernel) 8

theorem executes_abreast : ∃ r₁ r₂,
    abreast.Executes () { (planJob 0 1).begin_ with signal := ⟨true, false⟩ } r₁ ∧
      abreast.Executes () (planJob 1 2).begin_ r₂ ∧ r₁.workspace = r₂.workspace ∧ r₁.id ≠ r₂.id := by
  have hruns : ∃ r₁ ∈ abreast.ledger.store.runs, ∃ r₂ ∈ abreast.ledger.store.runs,
      (planJob 0 1).spec.run = r₁.id ∧ (planJob 1 2).spec.run = r₂.id ∧ r₁.speculative = false ∧
        r₂.speculative = false ∧ r₁.workspace = r₂.workspace ∧ r₁.id ≠ r₂.id := by
    decide +kernel
  obtain ⟨r₁, hr₁, r₂, hr₂, hp₁, hp₂, hs₁, hs₂, hw, hne⟩ := hruns
  exact ⟨r₁, r₂, ⟨by decide +kernel, rfl, hr₁, hp₁, hs₁⟩, ⟨by decide +kernel, rfl, hr₂, hp₂, hs₂⟩, hw,
    hne⟩

/-- **Two runs of a workspace are executed at once** when all events have been heard in order: the runner
of the canceled one has not returned yet. -/
theorem two_runs_abreast : ∃ p : Site Unit, p.Reachable ∧ p.node.backlog = [] ∧
    p.reached () = p.ledger.announced.length ∧ ∃ j₁ j₂ r₁ r₂, p.Executes () j₁ r₁ ∧
      p.Executes () j₂ r₂ ∧ j₁.stage = .executing ∧ j₂.stage = .executing ∧
        r₁.workspace = r₂.workspace ∧ r₁.id ≠ r₂.id := by
  obtain ⟨r₁, r₂, h₁, h₂, hw, hne⟩ := executes_abreast
  exact ⟨abreast, reachable_abreast, by decide +kernel, by decide +kernel, _, _, r₁, r₂, h₁, h₂, rfl,
    rfl, hw, hne⟩

theorem canceled_of_abreast_plans : ∃ j₁ j₂ r₁ r₂, abreast.Executes () j₁ r₁ ∧
    abreast.Executes () j₂ r₂ ∧ r₁.workspace = r₂.workspace ∧ r₁.id ≠ r₂.id ∧
      (r₁.IsCanceled ∨ r₂.IsCanceled) := by
  obtain ⟨r₁, r₂, h₁, h₂, hw, hne⟩ := executes_abreast
  exact ⟨_, _, r₁, r₂, h₁, h₂, hw, hne, reachable_abreast.canceled_of_abreast h₁ h₂ hw hne⟩

end Site

end Provision
