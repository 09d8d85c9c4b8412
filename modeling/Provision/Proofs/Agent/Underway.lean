import Provision.Proofs.Agent.Sound

/-!
# Runs of jobs under way

* `Ledger.Busy`: a phase is executed as far as the store knows, unless its run was canceled or is gone.
  It stays so until somebody reports a result for the phase (`Ledger.Busy.moves`).
* `Fleet.Underway`: so it is with the phase of every job that has not ended. Since no two jobs execute
  the same phase, a report of one ends nothing for another (`Fleet.Moves.underway`).
* `Fleet.Moves.ledger`: agents make no calls but their own.
-/

namespace Provision

open Identifier (Issued not_issued_fresh)

/-- Whether the run was canceled, perhaps by force. -/
def Run.IsCanceled (r : Run) : Prop :=
  r.status = .canceled ∨ r.status = .forceCanceled

instance (r : Run) : Decidable r.IsCanceled :=
  inferInstanceAs (Decidable (_ ∨ _))

/-- A phase is executed until somebody reports its end, or cancels the run. -/
theorem Run.Outcome.executing {r r' : Run} {now later : Instant} {action : Action} {kind : PhaseKind}
    (ho : r.Outcome now later action r') (hn : ∀ result, action ≠ .finish kind result)
    (h : r.status = kind.executing ∨ r.IsCanceled) : r'.status = kind.executing ∨ r'.IsCanceled := by
  have hstop {s : RunStatus} (hs : r.status = s) (hk : s ≠ kind.executing) (hc : s ≠ .canceled)
      (hf : s ≠ .forceCanceled) : False := by
    rcases h with h | h | h
    · exact hk (hs.symm.trans h)
    · exact hc (hs.symm.trans h)
    · exact hf (hs.symm.trans h)
  have hplan {result : PhaseResult} (hs : r.status = .planning)
      (hn : ∀ x, Action.finish .plan result ≠ .finish kind x) : False := by
    cases kind with
    | plan => exact hn result rfl
    | apply => exact hstop hs (by decide) (by decide) (by decide)
  have happly {result : PhaseResult} (hs : r.status = .applying)
      (hn : ∀ x, Action.finish .apply result ≠ .finish kind x) : False := by
    cases kind with
    | plan => exact hstop hs (by decide) (by decide) (by decide)
    | apply => exact hn result rfl
  cases ho with
  | late | setAutoApply => exact h
  | canceled => exact .inr (.inl rfl)
  | forceCanceled => exact .inr (.inr rfl)
  | enqueuePlan hs | enqueueApply hs | startPlan _ hs | startApply _ hs | discardedEarly hs
  | discardedLate hs => exact (hstop hs (by cases kind <;> decide) (by decide) (by decide)).elim
  | planErrored _ hs | planEnded _ _ hs | planned _ _ hs | confirmed _ _ hs =>
    exact (hplan hs hn).elim
  | applyErrored _ hs | applied _ hs => exact (happly hs hn).elim

namespace Ledger

variable {l l' : Ledger} {run : String} {kind : PhaseKind} {permits : Request → Prop}

/-- The phase of a run is executed, as far as the store knows, unless the run was canceled or is gone. -/
structure Busy (l : Ledger) (run : String) (kind : PhaseKind) : Prop where
  issued : Issued Run.stem l.supply run
  status : ∀ r ∈ l.store.runs, r.id = run → r.status = kind.executing ∨ r.IsCanceled

theorem Busy.request (h : l.Busy run kind) {c : Request}
    (hc : ∀ result, c ≠ .finishPhase run kind result) : (c.perform l).2.Busy run kind := by
  refine ⟨h.issued.mono (c.effect l).supply, fun r' hr' hid => ?_⟩
  rcases (c.effect l).run_cases hr' with hr | ⟨r, action, hact, hr, ho⟩ | ⟨-, hf, -, -⟩
  · exact h.status r' hr hid
  · have hrun : r.id = run := ho.precedes.id.symm.trans hid
    refine ho.executing (fun result ha => ?_) (h.status r (Store.run?_mem hr) hrun)
    subst ha
    cases c <;> cases hact
    exact hc result (hrun ▸ rfl)
  · exact absurd (hid.symm.trans hf ▸ h.issued) not_issued_fresh

/-- **A phase is executed until its result is reported.** -/
theorem Busy.moves (h : l.Busy run kind) (hm : Relation.ReflTransGen (Move permits) l l')
    (hp : ∀ result, ¬ permits (.finishPhase run kind result)) : l'.Busy run kind := by
  induction hm with
  | refl => exact h
  | tail _ hm ih =>
    cases hm with
    | tick now => exact ⟨ih.issued, ih.status⟩
    | request c hc _ => exact ih.request fun result he => hp result (he ▸ hc)

end Ledger

namespace Fleet

variable {ι : Type} [DecidableEq ι] {permits : Request → Prop} {f f' : Fleet ι} {i k : ι} {j j' : Job}
  {l : Ledger} {trace : List (Act ι)}

/-- The phase of every job that has not ended is executed as far as the store knows. -/
def Underway (f : Fleet ι) : Prop :=
  ∀ i, ∀ j ∈ (f.agent i).jobs, j.hasEnded = false → f.ledger.Busy j.spec.run j.spec.phase

/-- **No two jobs have the same phase.** -/
theorem Sound.job_eq (h : f.Sound) (hj : j ∈ (f.agent i).jobs) (hj' : j' ∈ (f.agent k).jobs)
    (hr : j'.spec.run = j.spec.run) (hp : j'.spec.phase = j.spec.phase) : k = i ∧ j' = j := by
  have hd : (act k j' .claimed).doer = (act i j .claimed).doer :=
    (h.doer_eq_iff ((h.tells i).hired j hj) ((h.tells k).hired j' hj')).mpr (Prod.ext hr hp)
  obtain ⟨rfl, hn⟩ := Prod.mk.inj hd
  exact ⟨rfl, List.inj_on_of_nodup_map (h.tells k).numbers hj' hj hn⟩

theorem underway_put {w : Worker}
    (ho : ∀ k ≠ i, ∀ j ∈ (f.agent k).jobs, j.hasEnded = false → l.Busy j.spec.run j.spec.phase)
    (hw : ∀ j ∈ w.agent.jobs, j.hasEnded = false → l.Busy j.spec.run j.spec.phase) :
    Underway { f.put i w with ledger := l, trace } :=
  forall_put (P := fun _ w => ∀ j ∈ w.agent.jobs, j.hasEnded = false → l.Busy j.spec.run j.spec.phase)
    hw ho

theorem Underway.revise (h : f.Underway) {change : Agent → Agent}
    (hc : ∀ j' ∈ (change (f.agent i)).jobs, ∃ j ∈ (f.agent i).jobs,
      j'.spec = j.spec ∧ j'.hasEnded = j.hasEnded) : (f.revise i change).Underway := by
  refine underway_put (fun k _ => h k) fun j' hj' he => ?_
  obtain ⟨j, hj, hs, hj'⟩ := hc j' hj'
  exact hs ▸ h i j hj (hj' ▸ he)

theorem Underway.told (h : f.Underway) {change : Agent → Agent}
    (ht : (f.agent i).Told (change (f.agent i))) : (f.revise i change).Underway := by
  obtain ⟨g, hg, hj, -⟩ := ht
  refine h.revise fun j' hj' => ?_
  obtain ⟨j, hjm, rfl⟩ := List.mem_map.mp (hj ▸ hj')
  exact ⟨j, hjm, (hg j).2.1, by rw [Job.hasEnded, (hg j).2.2.1, Job.hasEnded]⟩

/-- **A claim.** -/
theorem Underway.claim (h : f.Underway) (hs : f.Sound) (x : Run) : (f.claim i x).Underway := by
  rcases Agent.claim_cases x (f.agent i) f.ledger with hc | ⟨kind, r, r', hr, ho, hm, hc⟩
  · rw [Fleet.claim, hc]
    exact underway_put (fun k _ => h k) (h i)
  · have hold : ∀ k, ∀ j ∈ (f.agent k).jobs, j.hasEnded = false →
        (f.ledger.putRun r').Busy j.spec.run j.spec.phase := fun k j hj he =>
      (h k j hj he).moves (Service.startPhase_moves hm) fun result hp => by cases hp
    rw [Fleet.claim, hc]
    refine underway_put (fun k _ => hold k) fun j hj he => ?_
    rcases List.mem_append.mp hj with hj | hj
    · exact hold i j hj he
    rw [List.mem_singleton.mp hj]
    have hid : r'.id = r.id := ho.precedes.id
    refine ⟨?_, fun x hx hxid => .inl ?_⟩
    · change Issued Run.stem f.ledger.supply r'.id
      exact hid ▸ hs.ordered.issuedRuns r (Store.run?_mem hr)
    · rcases Keyed.mem_replace.mp hx with ⟨rfl, -⟩ | ⟨-, hne⟩
      · exact ho.start_queued.2
      · exact absurd hxid hne

/-- **A job goes on.** It may end, but that is no end for any other. -/
theorem Underway.job (h : f.Underway) (hs : f.Sound) {works : List Work} {t : Job × Ledger}
    (hj : j ∈ (f.agent i).jobs) (hg : Job.Goes (j, f.ledger) works t) :
    (f.work i t.1 t.2 works).Underway := by
  have hother : ∀ k, ∀ j' ∈ (f.agent k).jobs, (k ≠ i ∨ j' ≠ j) → j'.hasEnded = false →
      t.2.Busy j'.spec.run j'.spec.phase := by
    intro k j' hj' hne he
    refine (h k j' hj' he).moves hg.moves fun result hp => ?_
    obtain ⟨rfl, rfl⟩ := hs.job_eq hj hj' hp.1 hp.2
    exact hne.elim (· rfl) (· rfl)
  refine underway_put (fun k hk j' hj' => hother k j' hj' (.inl hk)) fun j' hj' he => ?_
  obtain ⟨x, hx, rfl⟩ := List.mem_map.mp hj'
  split_ifs at he ⊢ with hn
  · rw [hg.same.2]
    exact (h i j hj hg.hasEnded).moves (hg.writes he) fun result ⟨chunk, hp⟩ => by cases hp
  · exact hother i x hx (.inr fun hxj => hn (hxj ▸ hg.same.1.symm)) he

/-- **Whatever happens, a phase is executed until its job reports**, unless its run is canceled. -/
theorem Move.underway (hm : Move permits f f') (hs : f.Sound)
    (hp : ∀ run kind result, ¬ permits (.finishPhase run kind result)) (h : f.Underway) :
    f'.Underway := by
  cases hm with
  | tick now => exact fun i j hj he => ⟨(h i j hj he).issued, (h i j hj he).status⟩
  | request c hc => exact fun i j hj he => (h i j hj he).request fun result he' => hp _ _ _ (he' ▸ hc)
  | subscribe i _ | leave i _ | quit i _ _ => exact underway_put (fun k _ => h k) (h i)
  | claim i x _ => exact h.claim hs x
  | mark i hasSkipped _ => exact h.told (Agent.told_mark _ hasSkipped)
  | signal i run force _ => exact h.told (Agent.told_signal _ run force)
  | remove i j _ _ _ => exact h.revise fun j hj => ⟨j, List.mem_of_mem_filter hj, rfl, rfl⟩
  | stop i _ =>
    have hr : (f.revise i (·.cancelAll)).Underway := h.told (Agent.told_cancelAll _)
    exact underway_put (fun k _ => hr k) (hr i)
  | job i hj hg => exact h.job hs hj hg

theorem Moves.underway (hm : Moves permits f f') (hs : f.Sound)
    (hp : ∀ run kind result, ¬ permits (.finishPhase run kind result)) (h : f.Underway) :
    f'.Sound ∧ f'.Underway := by
  induction hm with
  | refl => exact ⟨hs, h⟩
  | tail _ hm ih => exact ⟨hm.sound ih.1, hm.underway ih.1 hp ih.2⟩

omit [DecidableEq ι] in
theorem underway_idle (agents : ι → String × ℕ) : (idle agents).Underway :=
  fun _ _ hj _ => absurd hj List.not_mem_nil

theorem isWork_of_asks {c : Request} (h : j.Asks c) : c.IsWork := by
  cases c <;> trivial

/-- **Agents make no calls but their own.** -/
theorem Move.ledger (hm : Move (fun _ => False) f f') :
    Relation.ReflTransGen (Ledger.Move Request.IsWork) f.ledger f'.ledger := by
  cases hm with
  | tick now => exact .single (.tick now)
  | request c hc => exact hc.elim
  | claim i x _ =>
    rcases Agent.claim_cases x (f.agent i) f.ledger with hc | ⟨kind, r, r', -, -, hm, hc⟩
    · rw [Fleet.claim, hc]
    · rw [Fleet.claim, hc]
      exact Relation.ReflTransGen.mono (fun _ _ hm => hm.mono fun c he => he ▸ trivial) _ _
        (Service.startPhase_moves hm)
  | job i hj hg =>
    exact Relation.ReflTransGen.mono (fun _ _ hm => hm.mono fun c => isWork_of_asks) _ _ hg.moves
  | subscribe | leave | mark | signal | remove | stop | quit => exact .refl

theorem Moves.ledger (hm : Moves (fun _ => False) f f') :
    Relation.ReflTransGen (Ledger.Move Request.IsWork) f.ledger f'.ledger := by
  induction hm with
  | refl => exact .refl
  | tail _ hm ih => exact ih.trans hm.ledger

end Fleet

end Provision
