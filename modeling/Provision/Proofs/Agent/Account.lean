import Provision.Proofs.Agent.Sound

/-!
# The calls behind a trace

A trace tells what was done for the phases. Here it is tied to the calls: what is done for a phase is
done to the writer of its log and to the ledger, as they are then.

* `Work.Calls`: what something done for a phase makes of the writer and of the ledger.
* `Job.Goes.calls`: a job takes no step without the call that belongs to it, and makes no other.
* `Fleet.Accounts`: how a trace accounts for a ledger.
* `Fleet.Reachable.accounted`: the trace of a fleet accounts for its ledger.
-/

namespace Provision

/-- What something done for a phase, by an agent with a name, makes of the writer of the phase's log and
of the ledger. -/
inductive Work.Calls (agent run : String) (phase : PhaseKind) :
    Work → LogWriter × Ledger → LogWriter × Ledger → Prop
  /-- The phase is started, which is not refused, and its log begins. -/
  | claimed {r : Run} {l l' : Ledger} (w : LogWriter) :
      Service.startPhase run phase agent l = (.ok r, l') →
      Calls agent run phase .claimed (w, l) ({ run, phase }, l')
  | executed (s : LogWriter × Ledger) : Calls agent run phase .executed s s
  | wrote (data : Text.Bytes) (s : LogWriter × Ledger) :
      Calls agent run phase (.wrote (LogWriter.write Service.putChunk data s).1.isOk) s
        (LogWriter.write Service.putChunk data s).2
  | returned (verdict : Verdict) (s : LogWriter × Ledger) :
      Calls agent run phase (.returned verdict) s s
  /-- The writer is closed. -/
  | closed (s : LogWriter × Ledger) :
      Calls agent run phase (.closed (LogWriter.close Service.putChunk s).2.1.isClosed) s
        (LogWriter.close Service.putChunk s).2
  /-- The phase is finished with the result, be that refused or not. -/
  | finished (result : PhaseResult) (s : LogWriter × Ledger) :
      Calls agent run phase (.finished result) s
        (s.1, (Service.finishPhase run phase result s.2).2)

/-- **To finish a phase stores no chunk.** -/
theorem Service.finishPhase_chunks (run : String) (phase : PhaseKind) (result : PhaseResult)
    (l : Ledger) : (finishPhase run phase result l).2.store.chunks = l.store.chunks := by
  have he : (Request.finishPhase run phase result).Effect l (finishPhase run phase result l).2 :=
    Request.effect_of_transition rfl fun _ _ => Run.outcome_of_finish
  generalize (finishPhase run phase result l).2 = l' at he
  cases he with
  | refused | acted => rfl

/-- **A step of a job** is the call that belongs to what it does, with the job's own writer; a step that
does nothing for the phase makes no call. -/
theorem Job.Goes.calls {j : Job} {l : Ledger} {works : List Work} {t : Job × Ledger}
    (h : Goes (j, l) works t) (agent : String) :
    (works = [] ∧ t.1.writer = j.writer ∧ t.2 = l) ∨
      ∃ w, works = [w] ∧
        w.Calls agent j.spec.run j.spec.phase (j.writer, l) (t.1.writer, t.2) := by
  cases h with
  | begin_ hs =>
    rw [begin_eq hs]
    exact .inr ⟨_, rfl, .executed _⟩
  | write data _ => exact .inr ⟨_, rfl, .wrote data (j.writer, l)⟩
  | return_ verdict hs =>
    rw [return_eq hs]
    exact .inr ⟨_, rfl, .returned verdict _⟩
  | close hs =>
    rw [closeLog_eq hs]
    exact .inr ⟨_, rfl, .closed (j.writer, l)⟩
  | conclude hs =>
    rw [conclude_eq hs]
    exact .inl ⟨rfl, rfl, rfl⟩
  | report hs =>
    rw [report_eq hs]
    exact .inr ⟨_, rfl, .finished _ (j.writer, l)⟩

namespace Fleet

variable {ι : Type} [DecidableEq ι]

/-- A trace accounts for a ledger, and for the writers of all jobs: from an empty store on, whatever the
agents did is in the trace and is the call that belongs to it, made at that point with the writer of the
job; and others made no calls but the permitted ones. -/
inductive Accounts (permits : Request → Prop) (names : ι → String) :
    List (Act ι) → (ι × ℕ → LogWriter) → Ledger → Prop
  | start (writers : ι × ℕ → LogWriter) : Accounts permits names [] writers {}
  /-- The clock is read anew. -/
  | tick {trace : List (Act ι)} {writers : ι × ℕ → LogWriter} {l : Ledger} (now : Instant) :
      Accounts permits names trace writers l →
      Accounts permits names trace writers { l with clock := now }
  /-- Somebody else makes a call. -/
  | request {trace : List (Act ι)} {writers : ι × ℕ → LogWriter} {l : Ledger} (c : Request) :
      permits c → Accounts permits names trace writers l →
      Accounts permits names trace writers (c.perform l).2
  /-- A job does something for its phase. -/
  | act {trace : List (Act ι)} {writers : ι × ℕ → LogWriter} {l : Ledger} (a : Act ι)
      {t : LogWriter × Ledger} : Accounts permits names trace writers l →
      a.work.Calls (names a.agent) a.run a.phase (writers a.doer, l) t →
      Accounts permits names (trace ++ [a]) (Function.update writers a.doer t.1) t.2

/-- The trace of a fleet accounts for its ledger and for the writers of its jobs. -/
structure Accounted (permits : Request → Prop) (names : ι → String) (f : Fleet ι) : Prop where
  named : ∀ i, (f.agent i).id = names i
  account : ∃ writers, Accounts permits names f.trace writers f.ledger ∧
    ∀ i, ∀ j ∈ (f.agent i).jobs, writers (i, j.number) = j.writer

variable {permits : Request → Prop} {names : ι → String} {f f' : Fleet ι} {i : ι} {j : Job}
  {l : Ledger}

theorem named_put {w : Worker} (h : ∀ k, (f.agent k).id = names k)
    (hid : w.agent.id = (f.agent i).id) : ∀ k, ((f.put i w).agent k).id = names k :=
  forall_put (P := fun k w => w.agent.id = names k) (hid.trans (h i)) fun k _ => h k

namespace Accounted

theorem put (h : Accounted permits names f) {w : Worker} (hid : w.agent.id = (f.agent i).id)
    (hj : ∀ j' ∈ w.agent.jobs, ∃ j ∈ (f.agent i).jobs,
      j'.number = j.number ∧ j'.writer = j.writer) : Accounted permits names (f.put i w) := by
  obtain ⟨writers, ha, hw⟩ := h.account
  refine ⟨named_put h.named hid, writers, ha, ?_⟩
  refine forall_put (P := fun k w => ∀ j ∈ w.agent.jobs, writers (k, j.number) = j.writer)
    (fun j' hj' => ?_) fun k _ => hw k
  obtain ⟨j, hjm, hn, hwriter⟩ := hj j' hj'
  rw [hn, hwriter, hw i j hjm]

theorem turn (h : Accounted permits names f) (mode : Worker.Mode) :
    Accounted permits names (f.turn i mode) :=
  h.put rfl fun j hj => ⟨j, hj, rfl, rfl⟩

theorem told (h : Accounted permits names f) {change : Agent → Agent}
    (ht : (f.agent i).Told (change (f.agent i))) : Accounted permits names (f.revise i change) := by
  obtain ⟨g, hg, hjobs, -, hid⟩ := ht
  refine h.put hid fun j' hj' => ?_
  obtain ⟨j, hj, rfl⟩ := List.mem_map.mp (hjobs ▸ hj')
  exact ⟨j, hj, (hg j).1, (hg j).2.2.2⟩

/-- **Something is done for a phase**, by a job that the agent has then. -/
theorem act (h : Accounted permits names f) (change : Agent → Agent) {w : Work}
    (hid : (change (f.agent i)).id = (f.agent i).id)
    (hj : ∀ j' ∈ (change (f.agent i)).jobs, j' = j ∨ j' ∈ (f.agent i).jobs ∧ j'.number ≠ j.number)
    (hc : ∀ x, (∀ j₀ ∈ (f.agent i).jobs, j₀.number = j.number → x = j₀.writer) →
      w.Calls (f.agent i).id j.spec.run j.spec.phase (x, f.ledger) (j.writer, l)) :
    Accounted permits names
      { f.revise i change with ledger := l, trace := f.trace ++ [Fleet.act i j w] } := by
  obtain ⟨writers, ha, hw⟩ := h.account
  have hcall : w.Calls (names i) j.spec.run j.spec.phase (writers (i, j.number), f.ledger)
      (j.writer, l) := by
    rw [← h.named i]
    exact hc _ fun j₀ hm hn => hn ▸ hw i j₀ hm
  refine ⟨named_put h.named hid, _, .act (Fleet.act i j w) ha hcall, ?_⟩
  refine forall_put (P := fun k w => ∀ j' ∈ w.agent.jobs,
    Function.update writers (i, j.number) j.writer (k, j'.number) = j'.writer) (fun j' hj' => ?_)
      fun k hk j' hj' => ?_
  · rcases hj j' hj' with rfl | ⟨hm, hne⟩
    · exact Function.update_self ..
    · rw [Function.update_of_ne (fun he => hne (congrArg Prod.snd he)), hw i j' hm]
  · rw [Function.update_of_ne (fun he => hk (congrArg Prod.fst he)), hw k j' hj']

/-- **A claim.** -/
theorem claim (h : Accounted permits names f) (hs : f.Sound) (x : Run) :
    Accounted permits names (f.claim i x) := by
  rcases Agent.claim_cases x (f.agent i) f.ledger with hc | ⟨kind, r, r', -, ho, hstart, hc⟩
  · rw [Fleet.claim, hc]
    dsimp only
    rw [List.drop_length, List.map_nil, List.append_nil]
    exact h.put rfl fun j hj => ⟨j, hj, rfl, rfl⟩
  · rw [Fleet.claim, hc]
    dsimp only
    rw [List.drop_left]
    refine h.act (j := Job.ofRun (f.agent i).claims r' kind) _ rfl (fun j' hj' => ?_) fun x _ => ?_
    · rcases List.mem_append.mp hj' with hm | hm
      · exact .inr ⟨hm, ((hs.tells i).below j' hm).ne⟩
      · exact .inl (List.mem_singleton.mp hm)
    · have hid : r'.id = r.id := ho.precedes.id
      exact .claimed x (hid.symm ▸ hstart)

/-- **A job goes on.** -/
theorem job (h : Accounted permits names f) {works : List Work} {t : Job × Ledger}
    (hj : j ∈ (f.agent i).jobs) (hg : Job.Goes (j, f.ledger) works t) :
    Accounted permits names (f.work i t.1 t.2 works) := by
  obtain ⟨hnumber, hspec⟩ := hg.same
  rcases hg.calls (f.agent i).id with ⟨rfl, hwriter, hl⟩ | ⟨w, rfl, hc⟩
  · rw [Fleet.work, hl, List.map_nil, List.append_nil]
    refine h.put (w := ⟨(f.agent i).putJob t.1, _⟩) rfl fun j' hj' => ?_
    rcases Agent.mem_putJob hj' with rfl | ⟨hm, -⟩
    · exact ⟨j, hj, hnumber, hwriter⟩
    · exact ⟨j', hm, rfl, rfl⟩
  · refine h.act (·.putJob t.1) rfl (fun _ => Agent.mem_putJob) fun x hx => ?_
    rw [hspec, hx j hj hnumber.symm]
    exact hc

end Accounted

/-- **Every move keeps the account.** -/
theorem Move.accounted (hm : Move permits f f') (hs : f.Sound) (h : Accounted permits names f) :
    Accounted permits names f' := by
  cases hm with
  | tick now =>
    obtain ⟨writers, ha, hw⟩ := h.account
    exact ⟨h.named, writers, ha.tick now, hw⟩
  | request c hc =>
    obtain ⟨writers, ha, hw⟩ := h.account
    exact ⟨h.named, writers, ha.request c hc, hw⟩
  | subscribe i _ | leave i _ | quit i _ _ => exact h.turn _
  | claim i x _ => exact h.claim hs x
  | mark i hasSkipped _ => exact h.told (Agent.told_mark _ hasSkipped)
  | signal i run force _ => exact h.told (Agent.told_signal _ run force)
  | remove i j _ _ _ => exact h.put rfl fun j hj => ⟨j, List.mem_of_mem_filter hj, rfl, rfl⟩
  | stop i _ => exact (h.told (Agent.told_cancelAll _)).turn .draining
  | job i hj hg => exact h.job hj hg

theorem Reachable.accounted (h : Reachable permits f) :
    Accounted permits (fun i => (f.agent i).id) f := by
  obtain ⟨agents, hm⟩ := h
  have hf : f.Sound ∧ Accounted permits (fun i => (agents i).1) f := by
    induction hm with
    | refl =>
      have hstart : Accounted permits (fun i => (agents i).1) (idle agents) :=
        ⟨fun _ => rfl, fun _ => { run := "", phase := .plan }, .start _,
          fun _ _ hj => absurd hj List.not_mem_nil⟩
      exact ⟨.idle agents, hstart⟩
    | tail _ hm ih => exact ⟨hm.sound ih.1, hm.accounted ih.1 ih.2⟩
  rw [show (fun i => (f.agent i).id) = fun i => (agents i).1 from funext hf.2.named]
  exact hf.2

end Fleet

end Provision
