import Provision.Proofs.Agent.Fleet
import Provision.Proofs.Run.History

/-!
# The course of a job

* `Ledger.Past`: a phase that is past being queued. It stays so for ever, since runs only go up in rank.
* `Agent.claim_cases`: a claim takes a queued phase past being queued, or does nothing.
* `Job.Goes.moves`: a job makes no calls but its own.
* `Fleet.Course`: how far a job has come, in terms of what it did.
* `Fleet.Whole`, `Fleet.Orderly`: what a job does altogether, and the beginnings of that.
-/

namespace Provision

open Identifier (Issued not_issued_fresh)

/-- The calls that agents make. -/
def Request.IsWork : Request → Prop
  | .startPhase .. | .finishPhase .. | .putChunk .. => True
  | _ => False

/-- The calls that a job makes: it writes a log, and finishes its own phase. -/
def Job.Asks (j : Job) : Request → Prop
  | .finishPhase run kind _ => run = j.spec.run ∧ kind = j.spec.phase
  | .putChunk _ => True
  | _ => False

namespace Ledger

variable {l l' : Ledger} {run : String} {kind : PhaseKind}

/-- The phase of a run is past being queued. -/
structure Past (l : Ledger) (run : String) (kind : PhaseKind) : Prop where
  issued : Issued Run.stem l.supply run
  beyond : ∀ r ∈ l.store.runs, r.id = run → kind.queued.rank < r.status.rank

/-- One ledger came about from another. -/
def Evolves : Ledger → Ledger → Prop :=
  Relation.ReflTransGen fun l l' => ∃ d : Deed, l' = d.on l

/-- **What is past being queued stays so.** -/
theorem Past.deed (h : l.Past run kind) (d : Deed) : (d.on l).Past run kind := by
  refine ⟨h.issued.mono (d.supply l), fun r' hr' hid => ?_⟩
  rcases d with now | c
  · exact h.beyond r' hr' hid
  rcases (c.effect l).run_cases hr' with hr | ⟨r, action, -, hr, ho⟩ | ⟨-, hf, -, -⟩
  · exact h.beyond r' hr hid
  · exact (h.beyond r (Store.run?_mem hr) (ho.precedes.id.symm.trans hid)).trans_le ho.advance.rank_le
  · exact absurd (hid.symm.trans hf ▸ h.issued) not_issued_fresh

theorem Evolves.past (he : l.Evolves l') (h : l.Past run kind) : l'.Past run kind := by
  induction he with
  | refl => exact h
  | tail _ hd ih =>
    obtain ⟨d, rfl⟩ := hd
    exact ih.deed d

theorem Evolves.ordered (he : l.Evolves l') (h : l.store.Ordered l.supply) :
    l'.store.Ordered l'.supply := by
  induction he with
  | refl => exact h
  | tail _ hd ih =>
    obtain ⟨d, rfl⟩ := hd
    exact d.ordered ih

theorem evolves_of_moves {permits : Request → Prop} (h : Relation.ReflTransGen (Move permits) l l') :
    l.Evolves l' := by
  refine Relation.ReflTransGen.mono (fun l l' hm => ?_) _ _ h
  cases hm with
  | tick now => exact ⟨.tick now, rfl⟩
  | request c _ _ => exact ⟨.request c, rfl⟩

end Ledger

/-! ## Claims -/

theorem PhaseKind.rank_queued_lt (kind : PhaseKind) : kind.queued.rank < kind.executing.rank := by
  cases kind <;> decide

theorem Service.startPhase_apply (id : String) (kind : PhaseKind) (agent : String) (l : Ledger) :
    startPhase id kind agent l = match l.store.run? id with
      | none => (.error (.runNotFound id), l)
      | some r => match r.start kind agent l.clock with
        | .error e => (.error e, l)
        | .ok r' => (.ok r', l.putRun r') := by
  have hid : ∀ r r' : Run, r.start kind agent l.clock = .ok r' → r'.id = r.id := fun r r' h =>
    (Run.outcome_of_start h : r.Outcome l.clock l.clock (.start kind agent) r').precedes.id
  exact (Effect.bind_ok (now_apply l)).trans (transition_apply id hid l)

theorem Service.startPhase_moves {id agent : String} {kind : PhaseKind} {r : Run} {l l' : Ledger}
    (h : startPhase id kind agent l = (.ok r, l')) :
    Relation.ReflTransGen (Ledger.Move (· = .startPhase id kind agent)) l l' := by
  have hm : Relation.ReflTransGen (Ledger.Move (· = .startPhase id kind agent)) l _ :=
    Ledger.moves_call (c := .startPhase id kind agent) rfl rfl fun _ h => by cases h
  rwa [h] at hm

/-- **What a claim comes to**: nothing, or a job for the phase, which is executed from then on. -/
theorem Agent.claim_cases (x : Run) (a : Agent) (l : Ledger) :
    (Agent.claim x (a, l)).2 = (a, l) ∨
      ∃ kind r r', l.store.run? r.id = some r ∧
        r.Outcome l.clock l.clock (.start kind a.id) r' ∧
        Service.startPhase r.id kind a.id l = (.ok r', l.putRun r') ∧
          (Agent.claim x (a, l)).2 = ({ a with
            jobs := a.jobs ++ [Job.ofRun a.claims r' kind], claims := a.claims + 1 },
            l.putRun r') := by
  unfold Agent.claim
  rcases x.status.queuedPhase? with _ | kind
  · exact .inl rfl
  dsimp only
  by_cases he : a.isExecuting x.id = true
  · rw [if_pos he]
    exact .inl rfl
  by_cases hb : a.slots ≤ a.busy
  · rw [if_neg he, if_pos hb]
    exact .inl rfl
  have hcall := Service.startPhase_apply x.id kind a.id l
  rw [if_neg he, if_neg hb]
  rcases hr : l.store.run? x.id with _ | r
  · rw [hr] at hcall
    rw [hcall]
    exact .inl rfl
  rw [hr] at hcall
  dsimp only at hcall
  rcases hs : r.start kind a.id l.clock with e | r'
  · rw [hs] at hcall
    rw [hcall]
    exact .inl rfl
  · rw [hs] at hcall
    have hid : r.id = x.id := Store.run?_id hr
    rw [hcall]
    exact .inr ⟨kind, r, r', hid ▸ hr, Run.outcome_of_start hs, hid ▸ hcall, rfl⟩

/-! ## Signals -/

namespace Agent

/-- The same agent, though its jobs may have been asked to stop. -/
def Told (a a' : Agent) : Prop :=
  ∃ g : Job → Job, (∀ j, (g j).number = j.number ∧ (g j).spec = j.spec ∧ (g j).stage = j.stage ∧
      (g j).writer = j.writer) ∧
    a'.jobs = a.jobs.map g ∧ a'.claims = a.claims ∧ a'.id = a.id

theorem told_mark (a : Agent) (hasSkipped : Bool) : a.Told { a with hasSkipped } :=
  ⟨fun j => j, fun _ => ⟨rfl, rfl, rfl, rfl⟩, (List.map_id _).symm, rfl, rfl⟩

theorem told_signal (a : Agent) (run : String) (force : Bool) : a.Told (a.signal run force) := by
  refine ⟨_, fun j => ?_, rfl, rfl, rfl⟩
  split_ifs <;> exact ⟨rfl, rfl, rfl, rfl⟩

theorem told_cancelAll (a : Agent) : a.Told a.cancelAll := by
  refine ⟨_, fun j => ?_, rfl, rfl, rfl⟩
  split_ifs <;> exact ⟨rfl, rfl, rfl, rfl⟩

end Agent

/-! ## Steps of a job -/

section Append

variable {permits : Request → Prop} (hp : ∀ chunk, permits (.putChunk chunk))

include hp

theorem LogWriter.append_moves (data : Text.Bytes) (w : LogWriter) (l : Ledger) :
    Relation.ReflTransGen (Ledger.Move permits) l
      (LogWriter.append Service.putChunk data (w, l)).2.2 := by
  have hm := Ledger.moves_call (c := .putChunk ⟨w.run, w.phase, w.offset, data⟩) (l := l) rfl (hp _)
    fun _ h => by cases h
  unfold LogWriter.append
  rcases hr : (Service.putChunk ⟨w.run, w.phase, w.offset, data⟩ l).1 with e | stored
  · simp only [hr]
    exact hm
  · simp only [hr]
    exact hm

theorem LogWriter.write_moves (data : Text.Bytes) (w : LogWriter) (l : Ledger) :
    Relation.ReflTransGen (Ledger.Move permits) l
      (LogWriter.write Service.putChunk data (w, l)).2.2 := by
  unfold LogWriter.write
  dsimp only
  split_ifs
  · exact .refl
  · exact .refl
  · exact append_moves hp _ _ _
  · exact append_moves hp _ _ _

theorem LogWriter.close_moves (w : LogWriter) (l : Ledger) :
    Relation.ReflTransGen (Ledger.Move permits) l
      (LogWriter.close Service.putChunk (w, l)).2.2 := by
  unfold LogWriter.close
  by_cases hc : w.isClosed = true
  · rw [if_pos hc]
  rw [if_neg hc]
  have hm := append_moves hp
    (if w.hasStarted then [Log.endMark] else [Log.startMark, Log.endMark]) w l
  rcases hr : LogWriter.append Service.putChunk
    (if w.hasStarted then [Log.endMark] else [Log.startMark, Log.endMark]) (w, l) with ⟨e | u, s⟩
  · rw [hr] at hm
    exact hm
  · rw [hr] at hm
    exact hm

end Append

namespace Job

variable {j : Job} {l : Ledger} {verdict : Verdict} {works : List Work} {t : Job × Ledger}

theorem begin_eq (h : j.stage = .claimed) : j.begin_ = { j with stage := .executing } := by
  rw [begin_, h]

theorem return_eq (h : j.stage = .executing) (verdict : Verdict) :
    j.return_ verdict = { j with stage := .returned verdict } := by
  rw [return_, h]

theorem closeLog_eq (h : j.stage = .returned verdict) (l : Ledger) :
    closeLog (j, l) =
      ((), ({ j with
        writer := (LogWriter.close Service.putChunk (j.writer, l)).2.1
        stage := .closed verdict }, (LogWriter.close Service.putChunk (j.writer, l)).2.2)) := by
  rw [closeLog, h]

theorem conclude_eq (h : j.stage = .closed verdict) :
    j.conclude = { j with stage := .reporting (result verdict j.signal) } := by
  rw [conclude, h]

theorem report_eq {result : PhaseResult} (h : j.stage = .reporting result) (l : Ledger) :
    report (j, l) = ((), ({ j with stage := .ended },
      (Service.finishPhase j.spec.run j.spec.phase result l).2)) := by
  rw [report, h]

theorem stage_of_hasEnded (h : j.hasEnded = true) : j.stage = .ended := by
  unfold hasEnded at h
  split at h
  · assumption
  · exact absurd h Bool.false_ne_true

theorem Goes.same (h : Goes (j, l) works t) : t.1.number = j.number ∧ t.1.spec = j.spec := by
  cases h with
  | begin_ hs =>
    rw [begin_eq hs]
    exact ⟨rfl, rfl⟩
  | write data hs => exact ⟨rfl, rfl⟩
  | return_ verdict hs =>
    rw [return_eq hs]
    exact ⟨rfl, rfl⟩
  | close hs =>
    rw [closeLog_eq hs]
    exact ⟨rfl, rfl⟩
  | conclude hs =>
    rw [conclude_eq hs]
    exact ⟨rfl, rfl⟩
  | report hs =>
    rw [report_eq hs]
    exact ⟨rfl, rfl⟩

theorem Goes.hasEnded (h : Goes (j, l) works t) : j.hasEnded = false := by
  cases h with
  | begin_ hs | write _ hs | return_ _ hs | close hs | conclude hs | report hs => rw [Job.hasEnded, hs]

/-- **A job makes no calls but its own.** -/
theorem Goes.moves (h : Goes (j, l) works t) : Relation.ReflTransGen (Ledger.Move j.Asks) l t.2 := by
  cases h with
  | begin_ | return_ | conclude => exact .refl
  | write data hs => exact LogWriter.write_moves (fun _ => trivial) data j.writer l
  | close hs =>
    rw [closeLog_eq hs]
    exact LogWriter.close_moves (fun _ => trivial) j.writer l
  | @report _ _ result hs =>
    rw [report_eq hs]
    exact Ledger.moves_call (c := .finishPhase j.spec.run j.spec.phase result) rfl ⟨rfl, rfl⟩
      fun _ h => by cases h

theorem Goes.writes (h : Goes (j, l) works t) (hn : t.1.hasEnded = false) :
    Relation.ReflTransGen (Ledger.Move fun c => ∃ chunk, c = .putChunk chunk) l t.2 := by
  cases h with
  | begin_ | return_ | conclude => exact .refl
  | write data hs => exact LogWriter.write_moves (fun chunk => ⟨chunk, rfl⟩) data j.writer l
  | close hs =>
    rw [closeLog_eq hs]
    exact LogWriter.close_moves (fun chunk => ⟨chunk, rfl⟩) j.writer l
  | report hs =>
    rw [report_eq hs] at hn
    cases hn

end Job

/-- Whether a phase was handed to the runner. -/
def Work.isExecuted : Work → Bool
  | .executed => true
  | _ => false

def Work.isClaimed : Work → Bool
  | .claimed => true
  | _ => false

namespace Fleet

/-! ## What a job does -/

/-- What a job did when it has come to a stage. -/
inductive Course : Job.Stage → List Work → Prop
  | claimed : Course .claimed [.claimed]
  | executed {works : List Work} : Course .claimed works → Course .executing (works ++ [.executed])
  | wrote {works : List Work} (isStored : Bool) : Course .executing works →
      Course .executing (works ++ [.wrote isStored])
  | returned {works : List Work} (verdict : Verdict) : Course .executing works →
      Course (.returned verdict) (works ++ [.returned verdict])
  | closed {works : List Work} {verdict : Verdict} (isClosed : Bool) :
      Course (.returned verdict) works → Course (.closed verdict) (works ++ [.closed isClosed])
  | concluded {works : List Work} {verdict : Verdict} (signal : CancelSignal) :
      Course (.closed verdict) works → Course (.reporting (Job.result verdict signal)) works
  | finished {works : List Work} {result : PhaseResult} : Course (.reporting result) works →
      Course .ended (works ++ [.finished result])

/-- Everything that a job does: it is claimed and executed, and writes; when the runner has returned, it
closes the log and then reports the result. -/
def Whole (works : List Work) : Prop :=
  ∃ writes verdict isClosed signal, (∀ w ∈ writes, ∃ isStored, w = .wrote isStored) ∧
    works = .claimed :: .executed :: writes ++
      [.returned verdict, .closed isClosed, .finished (Job.result verdict signal)]

/-- What a job did so far. -/
def Orderly (works : List Work) : Prop :=
  ∃ whole, Whole whole ∧ works <+: whole

/-- **What a job does is its course.** -/
theorem Course.goes {j : Job} {l : Ledger} {works did : List Work} {t : Job × Ledger}
    (h : Course j.stage did) (hg : Job.Goes (j, l) works t) : Course t.1.stage (did ++ works) := by
  cases hg with
  | begin_ hs =>
    rw [Job.begin_eq hs]
    exact .executed (hs ▸ h)
  | write data hs =>
    change Course j.stage _
    rw [hs] at h ⊢
    exact .wrote _ h
  | return_ verdict hs =>
    rw [Job.return_eq hs]
    exact .returned verdict (hs ▸ h)
  | close hs =>
    rw [Job.closeLog_eq hs]
    exact .closed _ (hs ▸ h)
  | conclude hs =>
    rw [Job.conclude_eq hs, List.append_nil]
    exact .concluded _ (hs ▸ h)
  | report hs =>
    rw [Job.report_eq hs]
    exact .finished (hs ▸ h)

theorem unclaimed_of_goes {j : Job} {l : Ledger} {works : List Work} {t : Job × Ledger}
    (hg : Job.Goes (j, l) works t) : ∀ w ∈ works, w.isClaimed = false := by
  cases hg <;> simp [Work.isClaimed]

theorem Course.writing {works : List Work} (h : Course .executing works) :
    ∃ writes, (∀ w ∈ writes, ∃ isStored, w = .wrote isStored) ∧
      works = .claimed :: .executed :: writes := by
  generalize hs : Job.Stage.executing = stage at h
  induction h with
  | executed h =>
    cases h
    exact ⟨[], nofun, rfl⟩
  | wrote isStored _ ih =>
    obtain ⟨writes, hw, rfl⟩ := ih rfl
    refine ⟨writes ++ [.wrote isStored], fun w hm => ?_, rfl⟩
    rcases List.mem_append.mp hm with hm | hm
    · exact hw w hm
    · exact ⟨isStored, List.mem_singleton.mp hm⟩
  | _ => cases hs

theorem Course.whole {works : List Work} (h : Course .ended works) : Whole works := by
  cases h with
  | finished h =>
    cases h with
    | @concluded _ verdict signal h =>
      cases h with
      | closed isClosed h =>
        cases h with
        | returned _ h =>
          obtain ⟨writes, hw, rfl⟩ := h.writing
          exact ⟨writes, verdict, isClosed, signal, hw, by simp⟩

theorem Course.continues {stage : Job.Stage} {works : List Work} (h : Course stage works) :
    ∃ rest, Course .ended (works ++ rest) := by
  have more {works : List Work} (w : Work) (h : ∃ rest, Course .ended (works ++ [w] ++ rest)) :
      ∃ rest, Course .ended (works ++ rest) := by
    obtain ⟨rest, hr⟩ := h
    exact ⟨w :: rest, by simpa using hr⟩
  have reporting {works : List Work} {result : PhaseResult} (h : Course (.reporting result) works) :
      ∃ rest, Course .ended (works ++ rest) := ⟨_, .finished h⟩
  have closed {works : List Work} {verdict : Verdict} (h : Course (.closed verdict) works) :
      ∃ rest, Course .ended (works ++ rest) := reporting (.concluded {} h)
  have returned {works : List Work} {verdict : Verdict} (h : Course (.returned verdict) works) :
      ∃ rest, Course .ended (works ++ rest) := more (.closed true) (closed (.closed true h))
  have executing {works : List Work} (h : Course .executing works) :
      ∃ rest, Course .ended (works ++ rest) :=
    more (.returned (.error .cancelled)) (returned (.returned (.error .cancelled) h))
  cases stage with
  | claimed => exact more .executed (executing (.executed h))
  | executing => exact executing h
  | returned verdict => exact returned h
  | closed verdict => exact closed h
  | reporting result => exact reporting h
  | ended => exact ⟨[], by rwa [List.append_nil]⟩

/-- **Every job is on its way through the whole.** -/
theorem Course.orderly {stage : Job.Stage} {works : List Work} (h : Course stage works) :
    Orderly works := by
  obtain ⟨rest, hr⟩ := h.continues
  exact ⟨_, hr.whole, List.prefix_append _ _⟩

theorem orderly_nil : Orderly [] := by
  obtain ⟨whole, hw, -⟩ := Course.claimed.orderly
  exact ⟨whole, hw, List.nil_prefix⟩

theorem Orderly.executed {works : List Work} (h : Orderly works) :
    works.countP (·.isExecuted) ≤ 1 := by
  obtain ⟨whole, ⟨writes, verdict, isClosed, signal, hw, rfl⟩, hp⟩ := h
  have hn : writes.countP (·.isExecuted) = 0 := by
    refine List.countP_eq_zero.mpr fun w hm => ?_
    obtain ⟨isStored, rfl⟩ := hw w hm
    simp [Work.isExecuted]
  refine (hp.sublist.countP_le (p := (·.isExecuted))).trans (le_of_eq ?_)
  rw [List.countP_append, List.countP_cons, List.countP_cons, hn]
  rfl

end Fleet

end Provision
