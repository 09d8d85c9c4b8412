import Provision.Proofs.Agent.Account

/-!
# Every phase is executed at most once

* `Fleet.Sound.history_orderly`: what is done for a phase, by all agents together, is the beginning of one
  whole.
* `Fleet.Orderly.finished_last`: nothing is done after the result was reported.
* `Fleet.moves_wrapUp`: nothing keeps a job from its end.
* `Fleet.Reachable.exactly_once`: every phase is executed at most once and finished exactly once.
-/

namespace Provision

theorem Job.wrapUp_apply {j : Job} (h : j.stage = .executing) (verdict : Verdict) (l : Ledger) :
    (wrapUp verdict (j, l)).2 =
      ({ j with
          writer := (LogWriter.close Service.putChunk (j.writer, l)).2.1
          stage := .ended },
        (Service.finishPhase j.spec.run j.spec.phase (result verdict j.signal)
          (LogWriter.close Service.putChunk (j.writer, l)).2.2).2) := by
  change (report ((closeLog (j.return_ verdict, l)).2.1.conclude,
    (closeLog (j.return_ verdict, l)).2.2)).2 = _
  rw [return_eq h]
  rfl

namespace Fleet

variable {ι : Type} [DecidableEq ι] {permits : Request → Prop} {f : Fleet ι} {i : ι} {j j' : Job}
  {l : Ledger} {works : List Work}

/-! ## Phases -/

theorem Sound.history_eq (h : Sound f) {a : Act ι} (ha : a ∈ f.trace) :
    f.history a.run a.phase = f.course a.agent a.job := by
  refine congrArg (List.map Act.work) (List.filter_congr fun b hb => ?_)
  exact decide_eq_decide.mpr (h.doer_eq_iff ha hb).symm

theorem Sound.course_orderly (h : Sound f) (i : ι) (m : ℕ) : Orderly (f.course i m) := by
  by_cases hm : m < (f.agent i).claims
  · by_cases hj : ∃ j ∈ (f.agent i).jobs, j.number = m
    · obtain ⟨j, hj, rfl⟩ := hj
      exact ((h.tells i).course j hj).orderly
    · exact ((h.tells i).joined m hm fun j hjm he => hj ⟨j, hjm, he⟩).orderly
  · rw [course, (h.tells i).unborn m (not_lt.mp hm)]
    exact orderly_nil

theorem Sound.history_orderly (h : Sound f) (run : String) (kind : PhaseKind) :
    Orderly (f.history run kind) := by
  by_cases ha : ∃ a ∈ f.trace, a.subject = (run, kind)
  · obtain ⟨a, ha, hs⟩ := ha
    obtain ⟨rfl, rfl⟩ := Prod.mk.inj hs
    exact h.history_eq ha ▸ h.course_orderly a.agent a.job
  · have hnone : f.history run kind = [] := by
      refine List.map_eq_nil_iff.mpr (List.filter_eq_nil_iff.mpr fun a ham hs => ?_)
      exact ha ⟨a, ham, of_decide_eq_true hs⟩
    rw [hnone]
    exact orderly_nil

theorem Sound.history_whole (h : Sound f) {a : Act ι} (hs : f.mode a.agent = .stopped)
    (ha : a ∈ f.trace) : Whole (f.history a.run a.phase) := by
  have hnone := h.stopped a.agent hs
  have hm : a.job < (f.agent a.agent).claims := by
    by_contra hle
    have hc := mem_courseIn ha rfl
    exact List.not_mem_nil ((h.tells a.agent).unborn a.job (not_lt.mp hle) ▸ hc)
  rw [h.history_eq ha]
  exact ((h.tells a.agent).joined a.job hm fun j hj => absurd (hnone ▸ hj) List.not_mem_nil).whole

/-- **Nothing is done after the result was reported.** -/
theorem Orderly.finished_last {before after : List Work} {result : PhaseResult}
    (h : Orderly (before ++ .finished result :: after)) : after = [] := by
  obtain ⟨whole, ⟨writes, verdict, isClosed, signal, hw, rfl⟩, rest, hr⟩ := h
  have hnone : Work.finished result ∉
      .claimed :: .executed :: writes ++ [.returned verdict, .closed isClosed] := by
    intro hm
    rcases List.mem_append.mp hm with hm | hm
    · rcases List.mem_cons.mp hm with hm | hm
      · cases hm
      rcases List.mem_cons.mp hm with hm | hm
      · cases hm
      obtain ⟨isStored, hm⟩ := hw _ hm
      cases hm
    · simp at hm
  rcases List.eq_nil_or_concat' (after ++ rest) with he | ⟨between, last, he⟩
  · exact (List.append_eq_nil_iff.mp he).1
  · have hsplit : (before ++ .finished result :: between) ++ [last] =
        (.claimed :: .executed :: writes ++ [.returned verdict, .closed isClosed]) ++
          [.finished (Job.result verdict signal)] := by
      rw [List.append_assoc, List.cons_append, ← he]
      simpa using hr
    refine absurd ?_ hnone
    rw [← (List.append_inj' hsplit rfl).1]
    exact List.mem_append_right _ List.mem_cons_self

/-- **When a result has been reported**, nothing more is done for the phase. -/
theorem Sound.finished_last (h : f.Sound) {before after : List (Act ι)} {a : Act ι}
    {result : PhaseResult} (ht : f.trace = before ++ a :: after) (ha : a.work = .finished result) :
    ∀ b ∈ after, b.subject ≠ a.subject := by
  intro b hb hs
  have horder := h.history_orderly a.run a.phase
  have hself : decide (a.subject = (a.run, a.phase)) = true := decide_eq_true rfl
  rw [history, ht, List.filter_append, List.filter_cons, if_pos hself, List.map_append, List.map_cons,
    ha] at horder
  have hmem : b ∈ after.filter fun a' => decide (a'.subject = (a.run, a.phase)) :=
    List.mem_filter.mpr ⟨hb, decide_eq_true hs⟩
  rw [List.map_eq_nil_iff.mp horder.finished_last] at hmem
  exact List.not_mem_nil hmem

theorem mem_work (hm : j ∈ (f.agent i).jobs) (hn : j'.number = j.number) :
    j' ∈ ((f.work i j' l works).agent i).jobs := by
  change j' ∈ ((f.revise i (·.putJob j')).agent i).jobs
  rw [Fleet.revise, agent_put]
  exact List.mem_map.mpr ⟨j, hm, if_pos hn.symm⟩

/-- **Nothing keeps a job from its end**: when the runner returns, whatever its verdict, the agent closes
the log, be that possible or not, and finishes the phase, and needs nobody else for that. -/
theorem moves_wrapUp (hm : j ∈ (f.agent i).jobs) (hs : j.stage = .executing) (verdict : Verdict) :
    ∃ f', Moves (fun _ => False) f f' ∧ f'.ledger = (Job.wrapUp verdict (j, f.ledger)).2.2 ∧
      f'.ledger = (Service.finishPhase j.spec.run j.spec.phase (Job.result verdict j.signal)
        (LogWriter.close Service.putChunk (j.writer, f.ledger)).2.2).2 ∧
      f'.trace = f.trace ++ [.returned verdict,
        .closed (LogWriter.close Service.putChunk (j.writer, f.ledger)).2.1.isClosed,
        .finished (Job.result verdict j.signal)].map (act i j) := by
  let r := LogWriter.close Service.putChunk (j.writer, f.ledger)
  let result := Job.result verdict j.signal
  let j₁ : Job := { j with stage := .returned verdict }
  let j₂ : Job := { j with writer := r.2.1, stage := .closed verdict }
  let j₃ : Job := { j₂ with stage := .reporting result }
  let j₄ : Job := { j₃ with stage := .ended }
  let f₁ := f.work i j₁ f.ledger [.returned verdict]
  let f₂ := f₁.work i j₂ r.2.2 [.closed r.2.1.isClosed]
  let f₃ := f₂.work i j₃ r.2.2 []
  let f₄ := f₃.work i j₄ (Service.finishPhase j.spec.run j.spec.phase result r.2.2).2
    [.finished result]
  have h₁ : Move (fun _ => False) f f₁ := by
    have h : Move (fun _ => False) f _ := .job i hm (.return_ verdict hs)
    rwa [Job.return_eq hs] at h
  have hm₁ : j₁ ∈ (f₁.agent i).jobs := mem_work hm rfl
  have h₂ : Move (fun _ => False) f₁ f₂ := .job i hm₁ (.close rfl)
  have hm₂ : j₂ ∈ (f₂.agent i).jobs := mem_work hm₁ rfl
  have h₃ : Move (fun _ => False) f₂ f₃ := .job i hm₂ (.conclude rfl)
  have hm₃ : j₃ ∈ (f₃.agent i).jobs := mem_work hm₂ rfl
  have h₄ : Move (fun _ => False) f₃ f₄ := .job i hm₃ (.report rfl)
  refine ⟨f₄, (((Relation.ReflTransGen.single h₁).tail h₂).tail h₃).tail h₄,
    (congrArg Prod.snd (Job.wrapUp_apply hs verdict f.ledger)).symm, rfl, ?_⟩
  change (((f.trace ++ _) ++ _) ++ _) ++ _ = _
  rw [List.append_assoc, List.append_assoc, List.append_assoc]
  rfl

/-- **Every phase is executed at most once and finished exactly once.** For any agents on one store,
whatever they hear and in whatever order, and whatever calls others make:

* the trace accounts for all that the agents did to the ledger: a claim in it is a phase that was started,
  `closed` is the close of the job's writer, `finished` is the call that finishes the phase, and there are
  no calls of theirs besides;
* what is done for a phase, by all agents together, is the beginning of one whole: it is claimed and
  executed once, its log is written, then closed once, and then its result is reported once;
* when the result has been reported, which stores no chunk, nothing more is done for the phase;
* when an agent has stopped, nothing is in flight on it, and all it began is whole;
* a phase that is executed is brought to its end without anybody's help when the runner returns,
  whatever the verdict, and whether or not the log could be closed. -/
theorem Reachable.exactly_once (h : Reachable permits f) :
    (∃ writers, Accounts permits (fun i => (f.agent i).id) f.trace writers f.ledger) ∧
    (∀ run kind, Orderly (f.history run kind) ∧
      (f.history run kind).countP (·.isExecuted) ≤ 1) ∧
    (∀ before a after result, f.trace = before ++ a :: after → a.work = .finished result →
      (∀ l, (Service.finishPhase a.run a.phase result l).2.store.chunks = l.store.chunks) ∧
        ∀ b ∈ after, b.subject ≠ a.subject) ∧
    (∀ i, f.mode i = .stopped → (f.agent i).inFlight = 0 ∧
      ∀ a ∈ f.trace, a.agent = i → Whole (f.history a.run a.phase)) ∧
    ∀ i, ∀ j ∈ (f.agent i).jobs, j.stage = .executing → ∀ verdict, ∃ f',
      Moves (fun _ => False) f f' ∧ f'.ledger = (Job.wrapUp verdict (j, f.ledger)).2.2 ∧
      f'.ledger = (Service.finishPhase j.spec.run j.spec.phase (Job.result verdict j.signal)
        (LogWriter.close Service.putChunk (j.writer, f.ledger)).2.2).2 ∧
      f'.trace = f.trace ++ [.returned verdict,
        .closed (LogWriter.close Service.putChunk (j.writer, f.ledger)).2.1.isClosed,
        .finished (Job.result verdict j.signal)].map (act i j) := by
  have hs := h.sound
  obtain ⟨writers, ha, -⟩ := h.accounted.account
  refine ⟨⟨writers, ha⟩, fun run kind => ?_, fun before a after result ht hf => ?_,
    fun i hi => ⟨?_, ?_⟩, fun i j hj hx => moves_wrapUp hj hx⟩
  · exact ⟨hs.history_orderly run kind, (hs.history_orderly run kind).executed⟩
  · exact ⟨Service.finishPhase_chunks a.run a.phase result, hs.finished_last ht hf⟩
  · rw [Agent.inFlight, hs.stopped i hi, List.countP_nil]
  · rintro a ha rfl
    exact hs.history_whole hi ha

/-- The first run, when its plan is queued. -/
def queuedRun : Run :=
  { Run.new 1 { workspace := Identifier.fresh Workspace.stem 0 } ({} : Ledger).clock with
    status := .planQueued }

/-- Two agents have tried to claim the plan of the first run. -/
def raced : Fleet Bool :=
  let idle : Fleet Bool := idle fun b => (if b then "agent-1" else "agent-2", 1)
  let stored := { idle with ledger := idle.ledger.after [
    .createOrganization "acme",
    .createWorkspace { name := "prod", organization := "acme" },
    .createRun { workspace := Identifier.fresh Workspace.stem 0 },
    .enqueuePlan queuedRun.id] }
  ((((stored.turn true .following).turn false .following).claim true queuedRun).claim false queuedRun)

theorem reachable_raced : Reachable (fun _ => True) raced :=
  ⟨_, ((((moves_after fun _ _ => trivial).tail (.subscribe true (by decide +kernel))).tail
    (.subscribe false (by decide +kernel))).tail (.claim true queuedRun (by decide +kernel))).tail
      (.claim false queuedRun (by decide +kernel))⟩

/-- One agent got the plan and executes it, the other one has stopped. -/
theorem exactly_once_raced : ∃ f : Fleet Bool, Reachable (fun _ => True) f ∧
    (∃ writers, Accounts (fun _ => True) (fun i => (f.agent i).id) f.trace writers f.ledger) ∧
    f.mode false = .stopped ∧ (f.agent false).inFlight = 0 ∧
      ∃ j ∈ (f.agent true).jobs, j.stage = .executing ∧
        f.history j.spec.run j.spec.phase = [.claimed, .executed] ∧
          Orderly (f.history j.spec.run j.spec.phase) ∧ ∀ verdict, ∃ f' isClosed,
            Moves (fun _ => False) f f' ∧ f'.trace = f.trace ++ [.returned verdict, .closed isClosed,
              .finished (Job.result verdict j.signal)].map (act true j) := by
  let j := Job.ofRun 0 queuedRun .plan
  let f₁ := raced.work true j.begin_ raced.ledger [.executed]
  let f₂ := (f₁.revise false (·.cancelAll)).turn false .draining
  let f₃ := f₂.turn false .stopped
  have hg : Job.Goes (j, raced.ledger) [.executed] (j.begin_, raced.ledger) := .begin_ rfl
  have h₁ : Move (fun _ => True) raced f₁ := .job true (by decide +kernel) hg
  have h₂ : Move (fun _ => True) f₁ f₂ := .stop false (by decide +kernel)
  have h₃ : Move (fun _ => True) f₂ f₃ := .quit false (by decide +kernel) (by decide +kernel)
  obtain ⟨agents, h⟩ := reachable_raced
  have hr : Reachable (fun _ => True) f₃ := ⟨agents, ((h.tail h₁).tail h₂).tail h₃⟩
  have hj : j.begin_ ∈ (f₃.agent true).jobs := by decide +kernel
  have hs : f₃.mode false = .stopped := by decide +kernel
  obtain ⟨haccount, horder, -, hstopped, hends⟩ := hr.exactly_once
  refine ⟨f₃, hr, haccount, hs, (hstopped false hs).1, j.begin_, hj, rfl, by decide +kernel,
    (horder _ _).1, fun verdict => ?_⟩
  obtain ⟨f', hm, -, -, ht⟩ := hends true j.begin_ hj rfl verdict
  exact ⟨f', _, hm, ht⟩

end Fleet

end Provision
