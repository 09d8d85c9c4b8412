import Provision.Proofs.Agent.Watch

/-!
# The jobs of an agent that watches

* `Agent.Carries`: an agent goes on with the jobs it has, or puts some away.
* `Watch.Sound`: what holds of the jobs at any time. Each has its own number, a job that has not reported
  executes its phase as far as the store knows, no two such jobs belong to one run, and there are no more
  jobs than slots. Every step keeps this (`Watch.Step.sound`).
* `Watch.Sound.not_isExecuting`: what is stored as queued is not in flight here.
-/

namespace Provision

open Identifier (Issued)

/-! ## Carrying on -/

namespace Job

theorem isInFlight_of_goes {j : Job} {l : Ledger} {works : List Work} {t : Job × Ledger}
    (hg : Goes (j, l) works t) (he : t.1.hasEnded = false) : j.isInFlight = true := by
  cases hg with
  | begin_ hs | write _ hs | return_ _ hs | close hs | conclude hs => rw [isInFlight, hs]
  | report hs =>
    rw [report_eq hs] at he
    cases he

theorem not_hasEnded_of_isInFlight {j : Job} (h : j.isInFlight = true) : j.hasEnded = false := by
  unfold isInFlight at h
  unfold hasEnded
  split at h <;> simp_all

end Job

namespace Agent

/-- An agent goes on with its jobs: each of them is one that it had, and no more of them take slots. -/
structure Carries (a a' : Agent) : Prop where
  claims : a'.claims = a.claims
  concurrency : a'.concurrency = a.concurrency
  numbers : (a'.jobs.map Job.number).Sublist (a.jobs.map Job.number)
  jobs : ∀ j' ∈ a'.jobs, ∃ j ∈ a.jobs, j'.number = j.number ∧ j'.spec = j.spec ∧
    (j.hasEnded = true → j'.hasEnded = true) ∧ (j.isInFlight = false → j'.isInFlight = false)
  busy : a'.busy ≤ a.busy

variable {a a' : Agent}

theorem carries_map {g : Job → Job} (hjobs : a'.jobs = a.jobs.map g)
    (hclaims : a'.claims = a.claims) (hconcurrency : a'.concurrency = a.concurrency)
    (hg : ∀ j ∈ a.jobs, (g j).number = j.number ∧ (g j).spec = j.spec ∧
      (j.hasEnded = true → (g j).hasEnded = true) ∧
      (j.isInFlight = false → (g j).isInFlight = false)) : a.Carries a' where
  claims := hclaims
  concurrency := hconcurrency
  numbers := by
    have hn : a'.jobs.map Job.number = a.jobs.map Job.number := by
      rw [hjobs, List.map_map]
      exact List.map_congr_left fun j hj => (hg j hj).1
    exact hn ▸ List.Sublist.refl _
  jobs j' hj' := by
    obtain ⟨j, hj, rfl⟩ := List.mem_map.mp (hjobs ▸ hj')
    exact ⟨j, hj, hg j hj⟩
  busy := by
    unfold busy
    rw [hjobs, List.countP_map]
    refine List.countP_mono_left fun j hj hb => ?_
    have hb : (g j).hasEnded = false := Bool.not_eq_true' _ ▸ hb
    have he : j.hasEnded = false :=
      (Bool.not_eq_true _).mp fun he => absurd (hb.symm.trans ((hg j hj).2.2.1 he)) Bool.false_ne_true
    rw [he, Bool.not_false]

theorem Told.carries (h : a.Told a') (hc : a'.concurrency = a.concurrency) : a.Carries a' := by
  obtain ⟨g, hg, hjobs, hclaims, -⟩ := h
  refine carries_map hjobs hclaims hc fun j _ => ⟨(hg j).1, (hg j).2.1, ?_, ?_⟩
  · rw [Job.hasEnded, Job.hasEnded, (hg j).2.2.1]
    exact fun h => h
  · rw [Job.isInFlight, Job.isInFlight, (hg j).2.2.1]
    exact fun h => h

theorem carries_mark (a : Agent) (hasSkipped : Bool) : a.Carries { a with hasSkipped } :=
  (told_mark a hasSkipped).carries rfl

theorem carries_refl (a : Agent) : a.Carries a :=
  carries_mark a a.hasSkipped

theorem carries_putJob {j t : Job} (hn : (a.jobs.map Job.number).Nodup) (hj : j ∈ a.jobs)
    (hnumber : t.number = j.number) (hspec : t.spec = j.spec) (he : j.hasEnded = false)
    (hf : j.isInFlight = false → t.isInFlight = false) : a.Carries (a.putJob t) := by
  refine carries_map rfl rfl rfl fun x hx => ?_
  split_ifs with hxt
  · obtain rfl := List.inj_on_of_nodup_map hn hx hj (hxt.trans hnumber)
    exact ⟨hnumber, hspec, fun h => absurd (he.symm.trans h) Bool.false_ne_true, hf⟩
  · exact ⟨rfl, rfl, fun h => h, fun h => h⟩

theorem carries_remove (a : Agent) (number : ℕ) : a.Carries (a.remove number) where
  claims := rfl
  concurrency := rfl
  numbers := List.filter_sublist.map _
  jobs j hj := ⟨j, List.mem_of_mem_filter hj, rfl, rfl, fun h => h, fun h => h⟩
  busy := List.Sublist.countP_le List.filter_sublist

theorem busy_of_claim {l : Ledger} {run : String} {kind : PhaseKind} (h : l.Busy run kind) (x : Run)
    (a : Agent) : (claim x (a, l)).2.2.Busy run kind := by
  rcases claim_cases x a l with hc | ⟨_, r, r', -, -, hm, hc⟩
  · rw [hc]
    exact h
  · rw [hc]
    exact h.moves (Service.startPhase_moves hm) fun result hp => by cases hp

end Agent

namespace Watch

variable {w w' : Watch} {j j' : Job}

/-! ## What holds of the jobs -/

/-- What holds of an agent that watches, at any time. -/
structure Sound (w : Watch) : Prop where
  truthful : w.ledger.Truthful
  reached : w.reached ≤ w.ledger.announced.length
  numbers : (w.agent.jobs.map Job.number).Nodup
  numbered : ∀ j ∈ w.agent.jobs, j.number < w.agent.claims
  /-- A job that has reported is not in flight any more. -/
  filed : ∀ n ∈ w.filed, n < w.agent.claims ∧
    ∀ j ∈ w.agent.jobs, j.number = n → j.isInFlight = false
  /-- A phase is executed until its job reports. -/
  busy : ∀ j ∈ w.agent.jobs, w.IsOpen j → w.ledger.Busy j.spec.run j.spec.phase
  /-- No two jobs execute phases of one run. -/
  apart : ∀ j ∈ w.agent.jobs, ∀ j' ∈ w.agent.jobs, w.IsOpen j → w.IsOpen j' →
    j'.spec.run = j.spec.run → j' = j
  slots : w.agent.busy ≤ w.agent.slots

namespace Sound

theorem isOpen (h : w.Sound) (hj : j ∈ w.agent.jobs) (hf : j.isInFlight = true) : w.IsOpen j := by
  refine ⟨Job.not_hasEnded_of_isInFlight hf, fun hn => ?_⟩
  cases hf.symm.trans ((h.filed _ hn).2 j hj rfl)

/-- A phase of a run is not queued while another one of it is executed here. -/
theorem run_ne (h : w.Sound) {r : Run} (hr : r ∈ w.ledger.store.runs) (hq : r.IsQueued)
    (hj : j ∈ w.agent.jobs) (ho : w.IsOpen j) : j.spec.run ≠ r.id := fun he =>
  hq.not_executing _ ((h.busy j hj ho).status r hr he.symm)

/-- **What is stored as queued is not in flight.** -/
theorem not_isExecuting (h : w.Sound) {r : Run} (hr : r ∈ w.ledger.store.runs) (hq : r.IsQueued) :
    w.agent.isExecuting r.id = false := by
  rw [← Bool.not_eq_true]
  intro he
  obtain ⟨j, hj, hf⟩ := List.any_eq_true.mp he
  obtain ⟨hf, hrun⟩ := Bool.and_eq_true_iff.mp hf
  exact h.run_ne hr hq hj (h.isOpen hj hf) (eq_of_beq hrun)

theorem carried (h : w.Sound) (hc : w.agent.Carries w'.agent) (hl : w.ledger.Later w'.ledger)
    (hf : w'.filed = w.filed) (hr : w'.reached ≤ w'.ledger.announced.length)
    (hb : ∀ j ∈ w.agent.jobs, w.IsOpen j → w'.ledger.Busy j.spec.run j.spec.phase) : w'.Sound := by
  have hn := h.numbers.sublist hc.numbers
  have hopen : ∀ j' ∈ w'.agent.jobs, w'.IsOpen j' → ∃ j ∈ w.agent.jobs, w.IsOpen j ∧
      j'.number = j.number ∧ j'.spec = j.spec := by
    intro j' hj' ho
    obtain ⟨j, hj, hnumber, hspec, hended, -⟩ := hc.jobs j' hj'
    refine ⟨j, hj, ⟨?_, fun hm => ho.2 ?_⟩, hnumber, hspec⟩
    · rw [← Bool.not_eq_true]
      intro he
      cases ho.1.symm.trans (hended he)
    · rw [hf, hnumber]
      exact hm
  refine ⟨h.truthful.later hl, hr, hn, fun j' hj' => ?_, fun n hm => ?_, fun j' hj' ho => ?_, ?_, ?_⟩
  · obtain ⟨j, hj, hnumber, -⟩ := hc.jobs j' hj'
    rw [hnumber, hc.claims]
    exact h.numbered j hj
  · rw [hf] at hm
    refine ⟨hc.claims ▸ (h.filed n hm).1, fun j' hj' hj'n => ?_⟩
    obtain ⟨j, hj, hnumber, -, -, hflight⟩ := hc.jobs j' hj'
    exact hflight ((h.filed n hm).2 j hj (hnumber.symm.trans hj'n))
  · obtain ⟨j, hj, hoj, -, hspec⟩ := hopen j' hj' ho
    exact hspec ▸ hb j hj hoj
  · intro j₁ hj₁ j₂ hj₂ ho₁ ho₂ hrun
    obtain ⟨k₁, hk₁, hok₁, hn₁, hs₁⟩ := hopen j₁ hj₁ ho₁
    obtain ⟨k₂, hk₂, hok₂, hn₂, hs₂⟩ := hopen j₂ hj₂ ho₂
    rw [hs₁, hs₂] at hrun
    have hk := h.apart k₁ hk₁ k₂ hk₂ hok₁ hok₂ hrun
    exact List.inj_on_of_nodup_map hn hj₂ hj₁ (hn₂.trans (hk ▸ hn₁.symm))
  · unfold Agent.slots
    rw [hc.concurrency]
    exact hc.busy.trans h.slots

theorem turned (h : w.Sound) (hasSkipped : Bool) (mode : Mode) :
    ({ w with agent := { w.agent with hasSkipped } }.turn mode).Sound :=
  h.carried (Agent.carries_mark _ _) .refl rfl h.reached h.busy

theorem add (h : w.Sound) {l : Ledger} (hl : w.ledger.Later l)
    (hold : ∀ j ∈ w.agent.jobs, w.IsOpen j → l.Busy j.spec.run j.spec.phase)
    (hn : j.number = w.agent.claims) (hb : l.Busy j.spec.run j.spec.phase)
    (hne : ∀ k ∈ w.agent.jobs, w.IsOpen k → k.spec.run ≠ j.spec.run)
    (hfree : w.agent.busy < w.agent.slots) :
    Sound { w with
      agent := { w.agent with jobs := w.agent.jobs ++ [j], claims := w.agent.claims + 1 }
      ledger := l } where
  truthful := h.truthful.later hl
  reached := h.reached.trans hl.announced.length_le
  numbers := by
    rw [List.map_append, List.nodup_append]
    refine ⟨h.numbers, List.nodup_singleton _, fun n hn' m hm => ?_⟩
    obtain ⟨k, hk, rfl⟩ := List.mem_map.mp hn'
    rw [List.mem_singleton.mp hm, hn]
    exact (h.numbered k hk).ne
  numbered := by
    refine List.forall_mem_append.mpr ⟨fun k hk => ?_, List.forall_mem_singleton.mpr ?_⟩
    · exact (h.numbered k hk).trans (Nat.lt_succ_self _)
    · exact hn.trans_lt (Nat.lt_succ_self _)
  filed n hn' := by
    refine ⟨(h.filed n hn').1.trans (Nat.lt_succ_self _), fun k hk hkn => ?_⟩
    rcases List.mem_append.mp hk with hk | hk
    · exact (h.filed n hn').2 k hk hkn
    · rw [List.mem_singleton.mp hk, hn] at hkn
      exact absurd hkn (h.filed n hn').1.ne'
  busy k hk hok := by
    rcases List.mem_append.mp hk with hk | hk
    · exact hold k hk hok
    · exact (List.mem_singleton.mp hk).symm ▸ hb
  apart j₁ hj₁ j₂ hj₂ ho₁ ho₂ hrun := by
    rcases List.mem_append.mp hj₁ with hj₁ | hj₁ <;> rcases List.mem_append.mp hj₂ with hj₂ | hj₂
    · exact h.apart j₁ hj₁ j₂ hj₂ ho₁ ho₂ hrun
    · rw [List.mem_singleton.mp hj₂] at hrun
      exact absurd hrun.symm (hne j₁ hj₁ ho₁)
    · rw [List.mem_singleton.mp hj₁] at hrun
      exact absurd hrun (hne j₂ hj₂ ho₂)
    · rw [List.mem_singleton.mp hj₁, List.mem_singleton.mp hj₂]
  slots := by
    change List.countP _ (_ ++ [_]) ≤ _
    rw [List.countP_append]
    exact (Nat.add_le_add_left List.countP_le_length _).trans hfree

/-- **A claim.** -/
theorem claim (h : w.Sound) (x : Run) : (w.act (Agent.claim x)).Sound := by
  have hl := Agent.claim_later x w.agent w.ledger
  have hold : ∀ j ∈ w.agent.jobs, w.IsOpen j →
      (Agent.claim x (w.agent, w.ledger)).2.2.Busy j.spec.run j.spec.phase :=
    fun j hj ho => Agent.busy_of_claim (h.busy j hj ho) x w.agent
  have hc := Agent.claims_claim x w.agent w.ledger
  unfold act
  generalize Agent.claim x (w.agent, w.ledger) = s at hc hl hold
  cases hc with
  | vain | skipped => exact h
  | taken kind r r' hk hr ho hfree =>
    have hm := Store.run?_mem hr
    have hid : r'.id = r.id := ho.precedes.id
    have hq : r.IsQueued := ⟨kind, ho.start_queued.1⟩
    have hb : (w.ledger.putRun r').Busy r'.id kind := by
      refine ⟨hid ▸ h.truthful.ordered.issuedRuns r hm, fun y hy hyid => .inl ?_⟩
      rcases Keyed.mem_replace.mp hy with ⟨rfl, -⟩ | ⟨-, hy⟩
      · exact ho.start_queued.2
      · exact absurd hyid hy
    -- what is executed here is no phase of this run
    have hne : ∀ j ∈ w.agent.jobs, w.IsOpen j → j.spec.run ≠ r'.id := fun j hj hoj =>
      hid ▸ h.run_ne hm hq hj hoj
    exact h.add hl hold rfl hb hne hfree

/-- **An event.** -/
theorem deliver (h : w.Sound) {e : Event} (he : w.ledger.announced[w.reached]? = some e) :
    Sound { w.act (Agent.handle e) with reached := w.reached + 1, heard := w.heard ++ [e] } := by
  obtain ⟨hlt, -⟩ := List.getElem?_eq_some_iff.mp he
  have hh := Agent.handles_handle e w.agent w.ledger
  unfold act
  generalize (Agent.handle e (w.agent, w.ledger)).2 = s at hh
  cases hh with
  | claimed x _ _ =>
    have hc := h.claim x
    exact hc.carried (Agent.carries_mark _ _) .refl rfl
      (hlt.trans_le (Agent.claim_later x w.agent w.ledger).announced.length_le) hc.busy
  | canceled x force _ _ =>
    exact h.carried ((Agent.told_signal _ _ _).carries rfl) .refl rfl hlt h.busy
  | ignored => exact h.carried (Agent.carries_refl _) .refl rfl hlt h.busy

/-- **A job goes on.** -/
theorem job (h : w.Sound) {works : List Work} {t : Job × Ledger} (hj : j ∈ w.agent.jobs)
    (hg : Job.Goes (j, w.ledger) works t) (he : t.1.hasEnded = false) :
    Sound { w with agent := w.agent.putJob t.1, ledger := t.2 } := by
  have hl : w.ledger.Later t.2 := .of_moves hg.moves
  refine h.carried (Agent.carries_putJob h.numbers hj hg.same.1 hg.same.2 hg.hasEnded ?_) hl rfl
    (h.reached.trans hl.announced.length_le) fun k hk hok => ?_
  · intro hf
    cases hf.symm.trans (Job.isInFlight_of_goes hg he)
  · exact (h.busy k hk hok).moves (hg.writes he) fun result ⟨chunk, hp⟩ => by cases hp

/-- **A job reports**, which is no end for any other. -/
theorem report (h : w.Sound) {result : PhaseResult} (hj : j ∈ w.agent.jobs)
    (hs : j.stage = .reporting result) (hn : j.number ∉ w.filed) :
    Sound { w with
      ledger := (Service.finishPhase j.spec.run j.spec.phase result w.ledger).2
      filed := j.number :: w.filed } := by
  have hm := Service.finishPhase_moves j.spec.run j.spec.phase result w.ledger
  have hl : w.ledger.Later _ := .of_moves hm
  have hended : j.hasEnded = false := by rw [Job.hasEnded, hs]
  have hopen : ∀ k, IsOpen { w with
      ledger := (Service.finishPhase j.spec.run j.spec.phase result w.ledger).2
      filed := j.number :: w.filed } k → w.IsOpen k ∧ k ≠ j := fun k ho =>
    ⟨⟨ho.1, fun hk => ho.2 (List.mem_cons_of_mem _ hk)⟩, fun hk => ho.2 (hk ▸ List.mem_cons_self)⟩
  refine ⟨h.truthful.later hl, h.reached.trans hl.announced.length_le, h.numbers, h.numbered,
    fun n hn' => ?_, fun k hk ho => ?_, ?_, h.slots⟩
  · rcases List.mem_cons.mp hn' with rfl | hn'
    · refine ⟨h.numbered j hj, fun k hk hkn => ?_⟩
      rw [List.inj_on_of_nodup_map h.numbers hk hj hkn, Job.isInFlight, hs]
    · exact h.filed n hn'
  · obtain ⟨ho, hne⟩ := hopen k ho
    refine (h.busy k hk ho).moves hm fun x hx => hne ?_
    exact h.apart j hj k hk ⟨hended, hn⟩ ho (Request.finishPhase.inj hx).1
  · intro j₁ hj₁ j₂ hj₂ ho₁ ho₂ hrun
    exact h.apart j₁ hj₁ j₂ hj₂ (hopen j₁ ho₁).1 (hopen j₂ ho₂).1 hrun

end Sound

/-- **Every step keeps an agent sound.** -/
theorem Step.sound (hs : Step w w') (h : w.Sound) : w'.Sound := by
  cases hs with
  | other d hp =>
    have hl := Ledger.Later.deed d w.ledger
    refine h.carried (Agent.carries_refl _) hl rfl (h.reached.trans hl.announced.length_le)
      fun j hj ho => ?_
    cases d with
    | tick now => exact ⟨(h.busy j hj ho).issued, (h.busy j hj ho).status⟩
    | request c => exact (h.busy j hj ho).request fun result he => hp j hj ho result (he ▸ rfl)
  | subscribe => exact h.carried (Agent.carries_refl _) .refl rfl le_rfl h.busy
  | leave | look => exact h.turned _ _
  | claim => exact (h.claim _).turned _ _
  | settle => exact h.turned _ _
  | deliver _ he => exact h.deliver he
  | join _ hj he => exact h.carried (Agent.carries_remove _ _) .refl rfl h.reached h.busy
  | job hj hg he => exact h.job hj hg he
  | report hj hs hn => exact h.report hj hs hn
  | @end_ j result hj hs hn =>
    have he : j.hasEnded = false := by rw [Job.hasEnded, hs]
    exact h.carried (Agent.carries_putJob h.numbers hj rfl rfl he fun _ => rfl) .refl rfl h.reached
      h.busy

theorem sound_idle (id : String) (concurrency : ℕ) :
    Sound { agent := { id, concurrency } } where
  truthful := .empty
  reached := le_rfl
  numbers := List.nodup_nil
  numbered _ hj := absurd hj List.not_mem_nil
  filed _ hn := absurd hn List.not_mem_nil
  busy _ hj := absurd hj List.not_mem_nil
  apart _ hj := absurd hj List.not_mem_nil
  slots := Nat.zero_le _

theorem Steps.sound (hs : Steps w w') (h : w.Sound) : w'.Sound := by
  induction hs with
  | refl => exact h
  | tail _ hs ih => exact hs.sound ih

theorem Reachable.sound {id : String} {concurrency : ℕ} (h : w.Reachable id concurrency) : w.Sound :=
  Steps.sound h (sound_idle id concurrency)

end Watch

end Provision
