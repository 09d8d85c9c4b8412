import Provision.Proofs.Agent.Slots

/-!
# Cancels that reach a job

* `Event.Cancels`, `Event.Forces`: the events that report a run as canceled, and as canceled by force.
* `CancelSignal.Tells`: what a job was asked for, in terms of the events that the agent was handed.
* `Watch.Step.signaled`: every step keeps the signals in line with these events.
* `Watch.Reachable.reported`: a run that is stored as canceled was reported as such.
* **`Watch.Reachable.signals_heard`**: a job in flight is asked to stop by exactly the events that were
  handed over, as long as the agent itself is not asked to stop. What is found in the store asks nothing
  of it, so that a cancel which is announced between two subscriptions is never passed on
  (`Watch.not_resynchronized`).
-/

namespace Provision

/-- The event reports that a run was canceled, perhaps by force. -/
def Event.Cancels (e : Event) (run : String) : Prop :=
  ∃ x, e.reported? = some x ∧ x.id = run ∧ x.IsCanceled

/-- The event reports that a run was canceled by force. -/
def Event.Forces (e : Event) (run : String) : Prop :=
  ∃ x, e.reported? = some x ∧ x.id = run ∧ x.status = .forceCanceled

theorem Event.Forces.cancels {e : Event} {run : String} (h : e.Forces run) : e.Cancels run := by
  obtain ⟨x, hx, hid, hs⟩ := h
  exact ⟨x, hx, hid, .inr hs⟩

instance (e : Event) (run : String) : Decidable (e.Cancels run) :=
  decidable_of_iff (∃ x ∈ e.reported?, x.id = run ∧ x.IsCanceled)
    (exists_congr fun _ => and_congr_left fun _ => Option.mem_def)

instance (e : Event) (run : String) : Decidable (e.Forces run) :=
  decidable_of_iff (∃ x ∈ e.reported?, x.id = run ∧ x.status = .forceCanceled)
    (exists_congr fun _ => and_congr_left fun _ => Option.mem_def)

/-- The signal tells what the events say that were handed over. -/
structure CancelSignal.Tells (signal : CancelSignal) (run : String) (heard : List Event) : Prop where
  canceled : signal.isCanceled = true ↔ ∃ e ∈ heard, e.Cancels run
  forced : signal.isForced = true ↔ ∃ e ∈ heard, e.Forces run

namespace CancelSignal

variable {signal : CancelSignal} {run : String} {heard : List Event} {e : Event}

theorem tells_new (h : ∀ e ∈ heard, ¬ e.Cancels run) : ({} : CancelSignal).Tells run heard where
  canceled := ⟨nofun, fun ⟨e, he, hc⟩ => absurd hc (h e he)⟩
  forced := ⟨nofun, fun ⟨e, he, hf⟩ => absurd hf.cancels (h e he)⟩

theorem exists_mem_concat {p : Event → Prop} :
    (∃ x ∈ heard ++ [e], p x) ↔ (∃ x ∈ heard, p x) ∨ p e := by
  simp only [List.mem_append, List.mem_singleton, or_and_right, exists_or, exists_eq_left]

theorem Tells.concat (h : signal.Tells run heard) (he : ¬ e.Cancels run) :
    signal.Tells run (heard ++ [e]) where
  canceled := h.canceled.trans (exists_mem_concat.trans (or_iff_left he)).symm
  forced := h.forced.trans
    (exists_mem_concat.trans (or_iff_left fun hf => he hf.cancels)).symm

/-- **A cancel that is passed on.** -/
theorem Tells.request (h : signal.Tells run heard) {x : Run} {force : Bool}
    (hx : e.reported? = some x) (hid : x.id = run)
    (hs : x.status = if force then .forceCanceled else .canceled) :
    (signal.request force).Tells run (heard ++ [e]) where
  canceled := by
    refine ⟨fun _ => exists_mem_concat.mpr (.inr ⟨x, hx, hid, ?_⟩), fun _ => rfl⟩
    cases force with
    | false => exact .inl hs
    | true => exact .inr hs
  forced := by
    have hforce : force = true ↔ e.Forces run := by
      constructor
      · rintro rfl
        exact ⟨x, hx, hid, hs⟩
      · rintro ⟨y, hy, -, hforced⟩
        obtain rfl := Option.some.inj (hx.symm.trans hy)
        rw [hforced] at hs
        cases force with
        | false => cases hs
        | true => rfl
    change (signal.isForced || force) = true ↔ _
    rw [Bool.or_eq_true_iff, exists_mem_concat, h.forced, hforce]

end CancelSignal

theorem Job.Goes.signal {j : Job} {l : Ledger} {works : List Work} {t : Job × Ledger}
    (h : Goes (j, l) works t) : t.1.signal = j.signal := by
  cases h with
  | begin_ hs => rw [begin_eq hs]
  | write data hs => rfl
  | return_ verdict hs => rw [return_eq hs]
  | close hs => rw [closeLog_eq hs]
  | conclude hs => rw [conclude_eq hs]
  | report hs => rw [report_eq hs]

namespace Watch

variable {w w' : Watch} {j : Job} {r : Run} {e : Event}

/-- What holds of the signals at any time. -/
structure Signaled (w : Watch) : Prop where
  heard : w.heard ⊆ w.ledger.announced
  /-- The jobs in flight were asked for what the events say that were handed over. -/
  tells : ∀ j ∈ w.agent.jobs, j.isInFlight = true → j.signal.Tells j.spec.run w.heard

theorem Sound.not_cancels (h : w.Sound) (hr : r ∈ w.ledger.store.runs) (hd : r.isDone = false)
    (he : e ∈ w.ledger.announced) : ¬ e.Cancels r.id := by
  rintro ⟨x, hx, hid, hc⟩
  have hknown := h.truthful.known e he x (Event.payload_of_reported? hx)
  have hxd : x.isDone = true := by
    unfold Run.isDone
    rcases hc with hs | hs <;> rw [hs] <;> rfl
  cases hd.symm.trans ((hknown.later r hr hid.symm).done hxd)

theorem Signaled.carried (hs : w.Signaled) (hl : w.ledger.Later w'.ledger) (hh : w'.heard = w.heard)
    (hj : ∀ j' ∈ w'.agent.jobs, j'.isInFlight = true → ∃ j ∈ w.agent.jobs,
      j.isInFlight = true ∧ j'.spec = j.spec ∧ j'.signal = j.signal) : w'.Signaled where
  heard := hh ▸ fun e he => hl.announced.subset (hs.heard he)
  tells j' hj' hf := by
    obtain ⟨j, hj, hjf, hspec, hsignal⟩ := hj j' hj' hf
    rw [hsignal, hspec, hh]
    exact hs.tells j hj hjf

/-- **A claim** makes a job that nobody has asked to stop. -/
theorem Signaled.claim (hs : w.Signaled) (h : w.Sound) (x : Run) :
    (w.act (Agent.claim x)).Signaled := by
  have hl := Agent.claim_later x w.agent w.ledger
  have hheard : w.heard ⊆ (Agent.claim x (w.agent, w.ledger)).2.2.announced :=
    fun e he => hl.announced.subset (hs.heard he)
  have hc := Agent.claims_claim x w.agent w.ledger
  unfold act
  generalize Agent.claim x (w.agent, w.ledger) = s at hc hheard
  cases hc with
  | vain | skipped => exact hs
  | taken kind r r' hk hr ho =>
    refine ⟨hheard, fun j hj hf => ?_⟩
    rcases List.mem_append.mp hj with hj | hj
    · exact hs.tells j hj hf
    · rw [List.mem_singleton.mp hj]
      have hid : r'.id = r.id := ho.precedes.id
      have hq : r.IsQueued := ⟨kind, ho.start_queued.1⟩
      refine CancelSignal.tells_new fun e he => ?_
      change ¬ e.Cancels r'.id
      exact hid ▸ h.not_cancels (Store.run?_mem hr) hq.not_done (hs.heard he)

/-- **An event that is handed over.** -/
theorem Signaled.deliver (hs : w.Signaled) (h : w.Sound)
    (he : w.ledger.announced[w.reached]? = some e) :
    Signaled { w.act (Agent.handle e) with reached := w.reached + 1, heard := w.heard ++ [e] } := by
  have hmem := List.mem_of_getElem? he
  have hheard : w.heard ++ [e] ⊆ w.ledger.announced :=
    List.append_subset.mpr ⟨hs.heard, List.cons_subset.mpr ⟨hmem, List.nil_subset _⟩⟩
  have hh := Agent.handles_handle e w.agent w.ledger
  unfold act
  generalize (Agent.handle e (w.agent, w.ledger)).2 = s at hh
  cases hh with
  | claimed x hx hq =>
    have hc := hs.claim h x
    have hl := Agent.claim_later x w.agent w.ledger
    refine ⟨fun e he => hl.announced.subset (hheard he), fun j hj hf => ?_⟩
    refine (hc.tells j hj hf).concat ?_
    rintro ⟨y, hy, -, hcanceled⟩
    obtain rfl := Option.some.inj (hx.symm.trans hy)
    exact hq.not_executing .plan (.inr hcanceled)
  | canceled x force hx hstatus =>
    refine ⟨hheard, fun j' hj' hf => ?_⟩
    obtain ⟨j, hj, rfl⟩ := List.mem_map.mp hj'
    split_ifs at hf ⊢ with hrun
    · exact (hs.tells j hj hrun.1).request hx hrun.2.symm hstatus
    · refine (hs.tells j hj hf).concat ?_
      rintro ⟨y, hy, hid, -⟩
      obtain rfl := Option.some.inj (hx.symm.trans hy)
      exact hrun ⟨hf, hid.symm⟩
  | ignored hn =>
    refine ⟨hheard, fun j hj hf => (hs.tells j hj hf).concat ?_⟩
    rintro ⟨x, hx, -, hcanceled⟩
    exact (hn x hx).2 hcanceled

theorem Signaled.putJob (hs : w.Signaled) {l : Ledger} (hl : w.ledger.Later l) {t : Job}
    (hj : j ∈ w.agent.jobs) (ht : t.isInFlight = true → j.isInFlight = true ∧ t.spec = j.spec ∧
      t.signal = j.signal) : Signaled { w with agent := w.agent.putJob t, ledger := l } := by
  refine hs.carried hl rfl fun j' hj' hf => ?_
  obtain ⟨k, hk, rfl⟩ := List.mem_map.mp hj'
  split_ifs at hf ⊢
  · exact ⟨j, hj, ht hf⟩
  · exact ⟨k, hk, hf, rfl, rfl⟩

/-- **Every step keeps the signals in line** with what was handed over. -/
theorem Step.signaled (hstep : Step w w') (h : w.Sound) (hs : w.Signaled) : w'.Signaled := by
  have hl := hstep.later
  have hsame : ∀ j ∈ w.agent.jobs, j.isInFlight = true → ∃ k ∈ w.agent.jobs,
      k.isInFlight = true ∧ j.spec = k.spec ∧ j.signal = k.signal :=
    fun j hj hf => ⟨j, hj, hf, rfl, rfl⟩
  cases hstep with
  | other | subscribe | leave | look | settle | report => exact hs.carried hl rfl hsame
  | @claim x _ _ _ => exact (hs.claim h x).carried .refl rfl fun j hj hf => ⟨j, hj, hf, rfl, rfl⟩
  | deliver _ he => exact hs.deliver h he
  | join => exact hs.carried hl rfl fun j hj => hsame j (List.mem_of_mem_filter hj)
  | job hj hg he =>
    refine hs.putJob hl hj fun _ => ?_
    exact ⟨Job.isInFlight_of_goes hg he, hg.same.2, hg.signal⟩
  | end_ hj _ _ => exact hs.putJob hl hj nofun

theorem Steps.signaled (hsteps : Steps w w') (h : w.Sound) (hs : w.Signaled) : w'.Signaled := by
  induction hsteps with
  | refl => exact hs
  | tail hsteps hstep ih => exact hstep.signaled (Steps.sound hsteps h) ih

/-- A canceled run that is stored was reported as it is stored. -/
theorem Reachable.reported {id : String} {concurrency : ℕ} (h : w.Reachable id concurrency)
    (hr : r ∈ w.ledger.store.runs) (hc : r.IsCanceled) :
    ∃ e ∈ w.ledger.announced, e.reported? = some r := by
  have hp : r.status ≠ .pending := by rcases hc with hs | hs <;> rw [hs] <;> decide
  rcases (Steps.later h).status_told hr hp with hr | ⟨k, -, he⟩
  · exact absurd hr List.not_mem_nil
  · exact ⟨_, List.mem_of_getElem? he, rfl⟩

/-- **Only events reach a job.** As long as the agent itself has not been asked to stop, in any session,
a job in flight was asked to stop if and only if its agent was handed an event that reports its run as
canceled, and by force if and only if it was handed one that says so. So where its run is stored as
canceled and the job was not asked to stop, an event that reports it was announced, and has not been
handed to the agent. -/
theorem Reachable.signals_heard {id : String} {concurrency : ℕ} (h : w.Reachable id concurrency) :
    ∀ j ∈ w.agent.jobs, j.isInFlight = true →
      (j.signal.isCanceled = true ↔ ∃ e ∈ w.heard, e.Cancels j.spec.run) ∧
      (j.signal.isForced = true ↔ ∃ e ∈ w.heard, e.Forces j.spec.run) ∧
      ∀ r ∈ w.ledger.store.runs, r.id = j.spec.run →
        (r.IsCanceled → j.signal.isCanceled = true ∨
          ∃ e ∈ w.ledger.announced, e ∉ w.heard ∧ e.Cancels r.id) ∧
        (r.status = .forceCanceled → j.signal.isForced = true ∨
          ∃ e ∈ w.ledger.announced, e ∉ w.heard ∧ e.Forces r.id) := by
  have hidle : Signaled { agent := { id, concurrency } } :=
    ⟨List.nil_subset _, fun _ hj => absurd hj List.not_mem_nil⟩
  have hs := Steps.signaled h (sound_idle id concurrency) hidle
  intro j hj hf
  have ht := hs.tells j hj hf
  refine ⟨ht.canceled, ht.forced, fun r hr hid => ⟨fun hc => ?_, fun hforced => ?_⟩⟩
  · obtain ⟨e, he, hx⟩ := h.reported hr hc
    refine or_iff_not_imp_left.mpr fun hn => ⟨e, he, fun hh => ?_, r, hx, rfl, hc⟩
    exact hn (ht.canceled.mpr ⟨e, hh, r, hx, hid, hc⟩)
  · obtain ⟨e, he, hx⟩ := h.reported hr (.inr hforced)
    refine or_iff_not_imp_left.mpr fun hn => ⟨e, he, fun hh => ?_, r, hx, rfl, hforced⟩
    exact hn (ht.forced.mpr ⟨e, hh, r, hx, hid, hforced⟩)

/-- An agent has claimed a plan. -/
def planning : Watch :=
  (({ agent := { id := "agent-1" } } : Watch).after [
    .createOrganization "acme",
    .createWorkspace { name := "prod", organization := "acme" },
    .createRun { workspace := Identifier.fresh Workspace.stem 0 },
    .enqueuePlan (Identifier.fresh Run.stem 1)]).arrived.next

theorem reachable_planning : planning.Reachable "agent-1" 5 :=
  ((steps_after _ (by simp)).trans (steps_arrived rfl)).trans (steps_next rfl)

/-- The run is canceled, and the agent is handed the event. -/
def told : Watch :=
  (planning.after [.cancel (Identifier.fresh Run.stem 1)]).next

theorem reachable_told : told.Reachable "agent-1" 5 :=
  (reachable_planning.trans (steps_after _ (by simp))).trans (steps_next rfl)

/-- The job of the canceled run is asked to stop, though not by force. -/
theorem signals_heard_told : ∃ j ∈ told.agent.jobs,
    j.isInFlight = true ∧ j.signal.isCanceled = true ∧ j.signal.isForced ≠ true := by
  obtain ⟨j, hj, hf, hc, hn⟩ : ∃ j ∈ told.agent.jobs, j.isInFlight = true ∧
      (∃ e ∈ told.heard, e.Cancels j.spec.run) ∧ ¬ ∃ e ∈ told.heard, e.Forces j.spec.run := by
    decide +kernel
  obtain ⟨hcanceled, hforced, -⟩ := reachable_told.signals_heard j hj hf
  exact ⟨j, hj, hf, hcanceled.mpr hc, fun h => hn (hforced.mp h)⟩

/-- The run is canceled while the agent has no subscription. -/
def deaf : Watch :=
  (planning.turn .away).after [.cancel (Identifier.fresh Run.stem 1)]

theorem reachable_deaf : deaf.Reachable "agent-1" 5 :=
  (reachable_planning.tail (.leave rfl)).trans (steps_after _ (by simp))

/-- **A subscription does not make up for a cancel that was missed**: after the agent has subscribed again
and looked at all that is queued, a job in flight goes on though its stored run is canceled. -/
theorem not_resynchronized : ¬ ∀ (id : String) (concurrency : ℕ) (w : Watch),
    w.Reachable id concurrency → w.mode = .away → ∀ j ∈ w.arrived.agent.jobs, j.isInFlight = true →
      ∀ r ∈ w.arrived.ledger.store.runs, r.id = j.spec.run → r.status = .canceled →
        j.signal.isCanceled = true := by
  intro h
  obtain ⟨j, hj, hf, r, hr, hid, hs, hn⟩ : ∃ j ∈ deaf.arrived.agent.jobs, j.isInFlight = true ∧
      ∃ r ∈ deaf.arrived.ledger.store.runs, r.id = j.spec.run ∧ r.status = .canceled ∧
        j.signal.isCanceled = false := by
    decide +kernel
  cases hn.symm.trans (h "agent-1" 5 deaf reachable_deaf rfl j hj hf r hr hid hs)

end Watch

end Provision
