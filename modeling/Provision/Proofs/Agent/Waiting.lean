import Provision.Proofs.Agent.Slots

/-!
# Queued phases that wait for an agent

* `Watch.Awaits`: what keeps an agent from losing sight of a queued run. Its event is still to come, or the
  rescan has it ahead, or the agent remembers that it skipped a phase, which it does only while all slots
  are taken (`Watch.Attended`). Every step keeps this, `Watch.Step.attended`.
* **`Watch.Reachable.unstranded`**: no more jobs than slots, and no queued phase is left behind.
-/

namespace Provision

namespace Agent

variable {a : Agent} {l : Ledger}

theorem full_of_claim (x : Run) {flag : Bool} (h : flag = true → a.slots ≤ a.jobs.length)
    (hf : (flag || !(claim x (a, l)).1) = true) :
    (claim x (a, l)).2.1.slots ≤ (claim x (a, l)).2.1.jobs.length := by
  obtain ⟨hconcurrency, -, hlength⟩ := claim_same x a l
  have hfull : a.slots ≤ a.jobs.length := by
    rcases Bool.or_eq_true_iff.mp hf with hf | hf
    · exact h hf
    · have hc := claims_claim x a l
      generalize claim x (a, l) = s at hc hf
      cases hc with
      | vain | taken => cases hf
      | skipped hb => exact hb.trans List.countP_le_length
  unfold slots at hfull ⊢
  rw [hconcurrency]
  exact hfull.trans hlength

end Agent

namespace Watch

variable {w w' : Watch} {r : Run} {e : Event}

/-! ## What is awaited -/

/-- Whether a phase was skipped since the agent last looked for queued phases. -/
def flag (w : Watch) : Bool :=
  match w.mode with
  | .scanning _ hasSkipped => hasSkipped
  | .following => w.agent.hasSkipped
  | .away | .due => false

theorem flag_of_scanning {rest : List Run} {s : Bool} (hm : w.mode = .scanning rest s) :
    w.flag = s := by
  rw [flag, hm]

theorem flag_of_following (hm : w.mode = .following) : w.flag = w.agent.hasSkipped := by
  rw [flag, hm]

/-- What keeps an agent from losing sight of a queued run. -/
inductive Awaits (w : Watch) (r : Run) : Prop
  /-- It will look for queued phases when it subscribes. -/
  | away : w.mode = .away → Awaits w r
  | due : w.mode = .due → Awaits w r
  /-- The run has been found, and is to be claimed. -/
  | ahead {rest : List Run} {hasSkipped : Bool} : w.mode = .scanning rest hasSkipped → r ∈ rest →
      Awaits w r
  | flagged : w.flag = true → Awaits w r
  /-- The agent will be handed the event that reports the status. -/
  | coming (k : ℕ) : w.reached ≤ k → w.ledger.announced[k]? = some (Event.runStatus r) → Awaits w r

/-- What holds of the queued runs at any time. -/
structure Attended (w : Watch) : Prop where
  awaited : ∀ r ∈ w.ledger.store.runs, r.IsQueued → w.Awaits r
  /-- A phase was skipped only if there are as many jobs as slots. -/
  full : w.flag = true → w.agent.slots ≤ w.agent.jobs.length

/-- **What a claim leaves queued** was queued before, and is what was to be claimed only if it was
skipped. -/
theorem Sound.queued_of_claim (h : w.Sound) (x : Run)
    (hr : r ∈ (Agent.claim x (w.agent, w.ledger)).2.2.store.runs) (hq : r.IsQueued) :
    r ∈ w.ledger.store.runs ∧ (r = x → (Agent.claim x (w.agent, w.ledger)).1 = false) := by
  have hc := Agent.claims_claim x w.agent w.ledger
  generalize Agent.claim x (w.agent, w.ledger) = s at hc hr
  cases hc with
  | vain hv =>
    refine ⟨hr, ?_⟩
    rintro rfl
    have he := hv hq (h.truthful.ordered.run?_eq_some_iff.mpr ⟨hr, rfl⟩)
    cases he.symm.trans (h.not_isExecuting hr hq)
  | skipped => exact ⟨hr, fun _ => rfl⟩
  | taken kind x₀ x' hk hx ho =>
    rcases Keyed.mem_replace.mp hr with ⟨rfl, -⟩ | ⟨hr, hne⟩
    · exact absurd (.inl ho.start_queued.2) (hq.not_executing kind)
    · refine ⟨hr, ?_⟩
      rintro rfl
      exact absurd ((Store.run?_id hx).symm.trans ho.precedes.id.symm) hne

theorem Awaits.later (h : w.Awaits r) (hl : w.ledger.announced <+: w'.ledger.announced)
    (hmode : w'.mode = w.mode) (hreached : w'.reached = w.reached)
    (hskipped : w'.agent.hasSkipped = w.agent.hasSkipped) : w'.Awaits r := by
  cases h with
  | away h => exact .away (hmode.trans h)
  | due h => exact .due (hmode.trans h)
  | ahead h hm => exact .ahead (hmode.trans h) hm
  | flagged h =>
    refine .flagged ?_
    unfold flag at h ⊢
    rw [hmode, hskipped]
    exact h
  | coming k hk he => exact .coming k (hreached ▸ hk) (Ledger.getElem?_of_prefix hl he)

theorem Attended.later (ha : w.Attended) (h : w.Sound) (hl : w.ledger.Later w'.ledger)
    (hmode : w'.mode = w.mode) (hreached : w'.reached = w.reached)
    (hskipped : w'.agent.hasSkipped = w.agent.hasSkipped)
    (hslots : w'.agent.slots = w.agent.slots)
    (hlength : w'.agent.jobs.length = w.agent.jobs.length) : w'.Attended where
  awaited r hr hq := by
    rcases hl.status_told hr hq.ne_pending with hr | ⟨k, hk, he⟩
    · exact (ha.awaited r hr hq).later hl.announced hmode hreached hskipped
    · exact .coming k (hreached ▸ h.reached.trans hk) he
  full hf := by
    rw [hslots, hlength]
    refine ha.full ?_
    unfold flag at hf ⊢
    rw [hmode, hskipped] at hf
    exact hf

/-! ## The steps -/

/-- **A claim of a run that was found.** -/
theorem Attended.claim (ha : w.Attended) (h : w.Sound) {x : Run} {rest : List Run} {s : Bool}
    (hm : w.mode = .scanning (x :: rest) s) :
    ((w.act (Agent.claim x)).turn
      (.scanning rest (s || !(Agent.claim x (w.agent, w.ledger)).1))).Attended where
  awaited r hr hq := by
    have hl := Agent.claim_later x w.agent w.ledger
    obtain ⟨hr, hx⟩ := h.queued_of_claim x hr hq
    cases ha.awaited r hr hq with
    | away hm' | due hm' => cases hm.symm.trans hm'
    | ahead hm' hmem =>
      cases hm.symm.trans hm'
      rcases List.mem_cons.mp hmem with hrx | hmem
      · refine .flagged ?_
        change (s || !(Agent.claim x (w.agent, w.ledger)).1) = true
        rw [hx hrx, Bool.not_false, Bool.or_true]
      · exact .ahead rfl hmem
    | flagged hf => exact .flagged (Bool.or_eq_true_iff.mpr (.inl (flag_of_scanning hm ▸ hf)))
    | coming k hk he => exact .coming k hk (Ledger.getElem?_of_prefix hl.announced he)
  full hf := by
    exact Agent.full_of_claim x (flag_of_scanning hm ▸ ha.full) hf

theorem attended_iff_of_following (hm : w.mode = .following) :
    w.Attended ↔ (∀ r ∈ w.ledger.store.runs, r.IsQueued → w.agent.hasSkipped = true ∨
      ∃ k, w.reached ≤ k ∧ w.ledger.announced[k]? = some (Event.runStatus r)) ∧
        (w.agent.hasSkipped = true → w.agent.slots ≤ w.agent.jobs.length) := by
  have hflag := flag_of_following hm
  constructor
  · intro ha
    refine ⟨fun r hr hq => ?_, hflag ▸ ha.full⟩
    cases ha.awaited r hr hq with
    | away hm' | due hm' | ahead hm' => cases hm.symm.trans hm'
    | flagged hf => exact .inl (hflag ▸ hf)
    | coming k hk he => exact .inr ⟨k, hk, he⟩
  · rintro ⟨hawaited, hfull⟩
    refine ⟨fun r hr hq => ?_, hflag.symm ▸ hfull⟩
    rcases hawaited r hr hq with hs | ⟨k, hk, he⟩
    · exact .flagged (hflag.trans hs)
    · exact .coming k hk he

/-- **An event that is handed over.** -/
theorem Attended.deliver (ha : w.Attended) (h : w.Sound) (hm : w.mode = .following)
    (he : w.ledger.announced[w.reached]? = some e) :
    Attended { w.act (Agent.handle e) with reached := w.reached + 1, heard := w.heard ++ [e] } := by
  obtain ⟨hawaited, hfull⟩ := (attended_iff_of_following hm).mp ha
  -- the event that was awaited may be the one that is handed over
  have hnext : ∀ r ∈ w.ledger.store.runs, r.IsQueued → w.agent.hasSkipped = true ∨
      e.reported? = some r ∨ ∃ k, w.reached + 1 ≤ k ∧
        w.ledger.announced[k]? = some (Event.runStatus r) := by
    intro r hr hq
    rcases hawaited r hr hq with hs | ⟨k, hk, hev⟩
    · exact .inl hs
    · rcases hk.eq_or_lt with rfl | hk
      · obtain rfl := Option.some.inj (he.symm.trans hev)
        exact .inr (.inl rfl)
      · exact .inr (.inr ⟨k, hk, hev⟩)
  refine (attended_iff_of_following (by exact hm)).mpr ?_
  have hh := Agent.handles_handle e w.agent w.ledger
  unfold act
  generalize (Agent.handle e (w.agent, w.ledger)).2 = s at hh
  cases hh with
  | claimed x hx _ =>
    have hl := Agent.claim_later x w.agent w.ledger
    obtain ⟨-, hsame, -⟩ := Agent.claim_same x w.agent w.ledger
    dsimp only
    rw [hsame]
    refine ⟨fun r hr hq => ?_, Agent.full_of_claim x hfull⟩
    obtain ⟨hr, hrx⟩ := h.queued_of_claim x hr hq
    rcases hnext r hr hq with hs | hrep | ⟨k, hk, hev⟩
    · exact .inl (Bool.or_eq_true_iff.mpr (.inl hs))
    · refine .inl (Bool.or_eq_true_iff.mpr (.inr ?_))
      rw [hrx (Option.some.inj (hrep.symm.trans hx)), Bool.not_false]
    · exact .inr ⟨k, hk, Ledger.getElem?_of_prefix hl.announced hev⟩
  | canceled x force hx hs =>
    refine ⟨fun r hr hq => ?_, fun hf => (hfull hf).trans_eq (List.length_map _).symm⟩
    rcases hnext r hr hq with hskipped | hrep | hcoming
    · exact .inl hskipped
    · obtain rfl := Option.some.inj (hrep.symm.trans hx)
      refine absurd (.inr ?_) (hq.not_executing .plan)
      cases force with
      | false => exact .inl hs
      | true => exact .inr hs
    · exact .inr hcoming
  | ignored hn =>
    refine ⟨fun r hr hq => ?_, hfull⟩
    rcases hnext r hr hq with hskipped | hrep | hcoming
    · exact .inl hskipped
    · exact absurd hq (hn r hrep).1
    · exact .inr hcoming

/-- **The end of a job.** If a phase was skipped, the agent looks again. -/
theorem Attended.join (ha : w.Attended) (hm : w.mode = .following) (number : ℕ) :
    (w.joined number).Attended := by
  by_cases hs : w.agent.hasSkipped = true
  · have hdue : (w.joined number).mode = .due := if_pos hs
    refine ⟨fun r _ _ => .due hdue, fun hf => ?_⟩
    unfold flag at hf
    rw [hdue] at hf
    cases hf
  · obtain ⟨hawaited, -⟩ := (attended_iff_of_following hm).mp ha
    refine (attended_iff_of_following (w := w.joined number) (if_neg hs)).mpr ⟨fun r hr hq => ?_, ?_⟩
    · exact .inr ((hawaited r hr hq).resolve_left hs)
    · exact fun hf => absurd hf hs

/-- **Every step keeps the queued runs awaited.** -/
theorem Step.attended (hs : Step w w') (h : w.Sound) (ha : w.Attended) : w'.Attended := by
  have hl := hs.later
  cases hs with
  | other d hp => exact ha.later h hl rfl rfl rfl rfl rfl
  | subscribe hm => exact ⟨fun r _ _ => .due rfl, nofun⟩
  | leave hm => exact ⟨fun r _ _ => .away rfl, nofun⟩
  | look hm =>
    refine ⟨fun r hr hq => .ahead rfl (List.mem_filter.mpr ⟨hr, ?_⟩), nofun⟩
    rcases (Run.isQueued_iff r).mp hq with hs | hs
    · simp [RunFilter.accepts, hs]
    · simp [RunFilter.accepts, hs]
  | claim hm => exact ha.claim h hm
  | @settle s hm =>
    have hflag := flag_of_scanning hm
    refine (attended_iff_of_following rfl).mpr ⟨fun r hr hq => ?_, fun hf => ha.full (hflag.trans hf)⟩
    cases ha.awaited r hr hq with
    | away hm' | due hm' => cases hm.symm.trans hm'
    | ahead hm' hmem =>
      cases hm.symm.trans hm'
      cases hmem
    | flagged hf => exact .inl (hflag.symm.trans hf)
    | coming k hk he => exact .inr ⟨k, hk, he⟩
  | deliver hm he => exact ha.deliver h hm he
  | join hm _ _ => exact ha.join hm _
  | job | end_ => exact ha.later h hl rfl rfl rfl rfl (List.length_map _)
  | report => exact ha.later h hl rfl rfl rfl rfl rfl

theorem Steps.attended (hs : Steps w w') (h : w.Sound) (ha : w.Attended) : w'.Attended := by
  induction hs with
  | refl => exact ha
  | tail hs hstep ih => exact hstep.attended (Steps.sound hs h) ih

theorem attended_idle (id : String) (concurrency : ℕ) :
    Attended { agent := { id, concurrency } } :=
  ⟨fun _ hr => absurd hr List.not_mem_nil, nofun⟩

/-! ## Slots and flags -/

/-- All events have been handed over and handled, and every job that has ended was put away. -/
structure IsSettled (w : Watch) : Prop where
  following : w.mode = .following
  handled : w.reached = w.ledger.announced.length
  joined : ∀ j ∈ w.agent.jobs, j.hasEnded = false

theorem Step.concurrency (hs : Step w w') : w'.agent.concurrency = w.agent.concurrency := by
  cases hs with
  | other | subscribe | leave | look | settle | join | job | report | end_ => rfl
  | @claim x rest s _ => exact (Agent.claim_same x w.agent w.ledger).1
  | @deliver e _ _ => exact (Agent.handle_same e w.agent w.ledger).1

theorem Reachable.concurrency {id : String} {n : ℕ} (h : w.Reachable id n) :
    w.agent.concurrency = n := by
  induction h with
  | refl => rfl
  | tail _ hs ih => exact hs.concurrency.trans ih

/-- An agent that follows events does not forget that it skipped a phase. -/
theorem Step.hasSkipped (hs : Step w w') (hm : w.mode = .following) (hm' : w'.mode = .following)
    (h : w.agent.hasSkipped = true) : w'.agent.hasSkipped = true := by
  cases hs with
  | other | job | report | end_ => exact h
  | subscribe | leave | look => cases hm'
  | claim hm'' | settle hm'' => cases hm.symm.trans hm''
  | join => cases (if_pos h).symm.trans hm'
  | @deliver e _ _ => exact (Agent.handle_same e w.agent w.ledger).2 h

theorem Sound.inFlight_le (h : w.Sound) : w.agent.inFlight ≤ w.agent.slots := by
  refine le_trans (List.countP_mono_left fun j _ hj => ?_) h.slots
  rw [Job.not_hasEnded_of_isInFlight hj, Bool.not_false]

theorem Sound.nodup_inFlight (h : w.Sound) :
    ((w.agent.jobs.filter (·.isInFlight)).map fun j => j.spec.run).Nodup := by
  refine List.Nodup.map_on (fun j hj k hk he => ?_) (h.numbers.of_map _ |>.filter _)
  obtain ⟨hj, hjf⟩ := List.mem_filter.mp hj
  obtain ⟨hk, hkf⟩ := List.mem_filter.mp hk
  exact h.apart k hk j hj (h.isOpen hk hkf) (h.isOpen hj hjf) he

/-- When all is settled, a phase is left queued only for lack of a slot, and the agent knows it. -/
theorem Attended.full_of_isSettled (ha : w.Attended) (h : w.Sound) (hw : w.IsSettled)
    (hr : r ∈ w.ledger.store.runs) (hq : r.IsQueued) :
    w.agent.busy = w.agent.slots ∧ w.agent.hasSkipped = true := by
  obtain ⟨hawaited, hfull⟩ := (attended_iff_of_following hw.following).mp ha
  have hs : w.agent.hasSkipped = true := by
    refine (hawaited r hr hq).resolve_right fun ⟨k, hk, he⟩ => ?_
    obtain ⟨hlt, -⟩ := List.getElem?_eq_some_iff.mp he
    exact absurd hlt (Nat.not_lt.mpr (hw.handled ▸ hk))
  have hbusy : w.agent.busy = w.agent.jobs.length :=
    List.countP_eq_length.mpr fun j hj => by rw [hw.joined j hj, Bool.not_false]
  exact ⟨h.slots.antisymm (hbusy ▸ hfull hs), hs⟩

/-- **No queued phase is left behind.** However many phases an agent may execute, and whatever happens:
no more jobs hold a slot, no more are in flight, and those belong to different runs. When the agent has
handled all events and put away all jobs that have ended, and still a stored run waits for an agent, then
all slots are taken by jobs that have not ended, and the agent has not forgotten that it skipped a phase:
as long as it goes on to follow events, the end of any job makes it look again. -/
theorem Reachable.unstranded {id : String} {concurrency : ℕ} (h : w.Reachable id concurrency) :
    w.agent.busy ≤ max concurrency 1 ∧ w.agent.inFlight ≤ max concurrency 1 ∧
      ((w.agent.jobs.filter (·.isInFlight)).map fun j => j.spec.run).Nodup ∧
      (w.IsSettled → ∀ r ∈ w.ledger.store.runs, r.status = .planQueued ∨ r.status = .applyQueued →
        w.agent.busy = max concurrency 1 ∧ w.agent.hasSkipped = true ∧
          ∀ w', Relation.ReflTransGen (fun a b => Step a b ∧ b.mode = .following) w w' →
            ∀ number, (w'.joined number).mode = .due) := by
  have hs := h.sound
  have ha := Steps.attended h (sound_idle id concurrency) (attended_idle id concurrency)
  have hslots : w.agent.slots = max concurrency 1 := congrArg (max · 1) h.concurrency
  refine ⟨hslots ▸ hs.slots, hslots ▸ hs.inFlight_le, hs.nodup_inFlight, fun hw r hr hq => ?_⟩
  obtain ⟨hbusy, hskipped⟩ := ha.full_of_isSettled hs hw hr ((Run.isQueued_iff r).mpr hq)
  refine ⟨hslots ▸ hbusy, hskipped, fun w' hsteps number => if_pos ?_⟩
  have hkept : w'.mode = .following ∧ w'.agent.hasSkipped = true := by
    induction hsteps with
    | refl => exact ⟨hw.following, hskipped⟩
    | tail _ hstep ih => exact ⟨hstep.2, hstep.1.hasSkipped ih.1 hstep.2 ih.2⟩
  exact hkept.2

/-- Two plans are queued before an agent with one slot subscribes. -/
def crowded : Watch :=
  (({ agent := { id := "agent-1", concurrency := 1 } } : Watch).after [
    .createOrganization "acme",
    .createWorkspace { name := "prod", organization := "acme" },
    .createRun { workspace := Identifier.fresh Workspace.stem 0, speculative := true },
    .createRun { workspace := Identifier.fresh Workspace.stem 0, speculative := true },
    .enqueuePlan (Identifier.fresh Run.stem 1),
    .enqueuePlan (Identifier.fresh Run.stem 2)]).arrived.next

theorem reachable_crowded : crowded.Reachable "agent-1" 1 :=
  ((steps_after _ (by simp)).trans (steps_arrived rfl)).trans (steps_next rfl)

/-- The agent has claimed one of the plans, and is settled while the other one waits. -/
theorem unstranded_crowded : crowded.IsSettled ∧ crowded.agent.busy = 1 ∧
    crowded.agent.hasSkipped = true ∧ ∀ number, (crowded.joined number).mode = .due := by
  obtain ⟨-, -, -, hsettled⟩ := reachable_crowded.unstranded
  have hw : crowded.IsSettled := ⟨rfl, by decide +kernel, by decide +kernel⟩
  obtain ⟨r, hr, hq⟩ : ∃ r ∈ crowded.ledger.store.runs,
      r.status = .planQueued ∨ r.status = .applyQueued := by
    decide +kernel
  obtain ⟨hbusy, hskipped, hjoin⟩ := hsettled hw r hr hq
  exact ⟨hw, hbusy, hskipped, hjoin crowded .refl⟩

end Watch

end Provision
