import Provision.Proofs.Run.Claims
import Provision.Proofs.Run.History

/-!
# Cancels and forced cancels

A cancel tells whether an agent has to be told to stop, and lays down the time that must pass before a
forced one. Both are kept apart from the phases and the log, and always say what these say.

* `Run.Coupled.cancel_ok_true_iff`: an agent is told to stop if and only if a phase is running.
* `Run.Cooled`: what the log tells of a run's cancel. Every outcome keeps it, `Run.Cooled.outcome`.
* **`Run.cancels_agree`**: cancels and forced cancels agree with the history, whatever it was.
-/

namespace Provision

open Entered (IsPath statuses)

/-! ## The time of a status in a longer log -/

namespace Entered

variable {σ : Type} [DecidableEq σ] {log more : List (Entered σ)} {s : σ}

theorem timeOf?_append_of_notMem (h : s ∉ statuses more) :
    timeOf? (log ++ more) s = timeOf? log s := by
  have hn : (more.find? fun e => decide (e.status = s)) = none := by
    rw [List.find?_eq_none]
    intro e he hs
    exact h (List.mem_map.mpr ⟨e, he, of_decide_eq_true hs⟩)
  unfold timeOf?
  rw [List.find?_append, hn, Option.or_none]

theorem isSome_timeOf?_iff : (timeOf? log s).isSome = true ↔ s ∈ statuses log := by
  unfold timeOf? statuses
  rw [Option.isSome_map, List.find?_isSome, List.mem_map]
  simp only [decide_eq_true_eq]

end Entered

namespace Run

variable {r r' : Run} {now later : Instant} {action : Action}

/-! ## The signal of a cancel -/

theorem cancel_ok_true_iff (r : Run) (t : Instant) :
    (∃ r', r.cancel t = .ok (r', true)) ↔ r.status.isExecuting = true := by
  unfold cancel
  constructor
  · rintro ⟨r', h⟩
    split_ifs at h
    exact congrArg Prod.snd (Except.ok.inj h)
  · intro h
    have hd : r.isDone = false := by
      unfold isDone
      cases hs : r.status <;> first | rfl | (rw [hs] at h; cases h)
    rw [hd, h]
    exact ⟨_, rfl⟩

theorem isExecuting_iff (s : RunStatus) :
    s.isExecuting = true ↔ ∃ kind : PhaseKind, s = kind.executing := by
  constructor
  · intro h
    cases s <;> first | exact ⟨.plan, rfl⟩ | exact ⟨.apply, rfl⟩ | cases h
  · rintro ⟨kind, rfl⟩
    cases kind <;> rfl

/-- **A cancel has an agent told to stop** if and only if a phase of the run is running. -/
theorem Coupled.cancel_ok_true_iff (h : r.Coupled) (t : Instant) :
    (∃ r', r.cancel t = .ok (r', true)) ↔ ∃ kind, (r.phase kind).status = .running :=
  (Run.cancel_ok_true_iff r t).trans <| (isExecuting_iff r.status).trans <|
    exists_congr fun kind => (h.phase_iff kind).2

/-! ## The cool-off -/

theorem forceCancelAt_ok_iff (r : Run) (t : Instant) :
    (∃ r', r.forceCancelAt t = .ok r') ↔
      r.status = .canceled ∧ ∃ available, r.forceCancelFrom = some available ∧ available < t := by
  unfold forceCancelAt
  cases hf : r.forceCancelFrom with
  | none =>
    constructor
    · rintro ⟨r', h⟩
      cases h
    · rintro ⟨-, _, h, -⟩
      cases h
  | some available =>
    dsimp only
    constructor
    · rintro ⟨r', h⟩
      split_ifs at h with hc
      exact ⟨hc.1, available, rfl, hc.2⟩
    · rintro ⟨hs, _, ha, hlt⟩
      obtain rfl := Option.some.inj ha
      exact ⟨_, if_pos ⟨hs, hlt⟩⟩

theorem Outcome.forceCancelFrom_eq (h : Outcome r now later action r') (hs : r'.status ≠ .canceled) :
    r'.forceCancelFrom = r.forceCancelFrom := by
  cases h with
  | canceled => exact absurd rfl hs
  | enqueuePlan | enqueueApply | startPlan | startApply | late | planErrored | planEnded | planned
  | confirmed | applyErrored | applied | forceCanceled | discardedEarly | discardedLate
  | setAutoApply => rfl

/-- What the log of a run tells of its cancel. -/
structure Cooled (r : Run) : Prop where
  path : IsPath RunStatus.leadsTo .pending r.status r.log
  /-- The cool-off ends ten seconds after the cancel. -/
  available : r.forceCancelFrom = (r.timeOf? .canceled).map (·.addSeconds coolOff)
  /-- A forced cancel directly follows a cancel, and comes after the cool-off. -/
  forced : r.log.IsChain fun e f =>
    f.status = .forceCanceled → e.status = .canceled ∧ e.time.addSeconds coolOff < f.time

namespace Cooled

theorem new (number : ℕ) (opts : NewRun) (now : Instant) : (Run.new number opts now).Cooled where
  path := .single _ _ _
  available := rfl
  forced := List.isChain_singleton _

section Read

variable (h : r.Cooled)
include h

theorem nodup : (statuses r.log).Nodup :=
  h.path.nodup _ RunStatus.rank_lt_of_leadsTo

theorem available_of_mem {e : Entered RunStatus} (he : e ∈ r.log) (hs : e.status = .canceled) :
    r.forceCancelFrom = some (e.time.addSeconds coolOff) := by
  have ht : r.timeOf? .canceled = some e.time :=
    (Entered.timeOf?_eq_some_iff h.nodup _ _).mpr (hs ▸ he)
  rw [h.available, ht]
  rfl

theorem isSome_available_iff : r.forceCancelFrom.isSome = true ↔ .canceled ∈ statuses r.log := by
  rw [h.available, Option.isSome_map]
  exact Entered.isSome_timeOf?_iff

theorem exists_last : ∃ e, r.log.getLast? = some e ∧ e ∈ r.log ∧ e.status = r.status := by
  have hl := h.path.last
  rw [statuses, List.getLast?_map, Option.map_eq_some_iff] at hl
  obtain ⟨e, he, hs⟩ := hl
  exact ⟨e, he, List.mem_of_getLast? he, hs⟩

/-- A canceled run may be canceled by force once the cool-off since its cancel has passed. -/
theorem forceCancelAt_ok_iff (t : Instant) :
    (∃ r', r.forceCancelAt t = .ok r') ↔ r.status = .canceled ∧
      ∃ e ∈ r.log, e.status = .canceled ∧ e.time.addSeconds coolOff < t := by
  rw [Run.forceCancelAt_ok_iff]
  constructor
  · rintro ⟨hs, available, ha, hlt⟩
    obtain ⟨e, -, he, hes⟩ := h.exists_last
    have hc : e.status = .canceled := hes.trans hs
    obtain rfl := Option.some.inj ((h.available_of_mem he hc).symm.trans ha)
    exact ⟨hs, e, he, hc, hlt⟩
  · rintro ⟨hs, e, he, hc, hlt⟩
    exact ⟨hs, _, h.available_of_mem he hc, hlt⟩

theorem forced_of_split {before rest : List (Entered RunStatus)} {f : Entered RunStatus}
    (hl : r.log = before ++ f :: rest) (hf : f.status = .forceCanceled) :
    ∃ e, before.getLast? = some e ∧ e.status = .canceled ∧ e.time.addSeconds coolOff < f.time := by
  have hne : before ≠ [] := by
    rintro rfl
    -- the log begins with the pending run
    have hh := h.path.head
    rw [hl, List.nil_append, statuses, List.map_cons, List.head?_cons, hf] at hh
    cases hh
  have hc := h.forced
  rw [hl, List.isChain_append] at hc
  have he := List.getLast?_eq_some_getLast hne
  exact ⟨_, he, hc.2.2 _ he f rfl hf⟩

end Read

section Step

variable (h : r.Cooled)
include h

/-- A run stays cooled where the log goes on with entries that are neither cancels nor forced ones. -/
theorem goes_on {more : List (Entered RunStatus)} (hlog : r'.log = r.log ++ more)
    (hp : IsPath RunStatus.leadsTo .pending r'.status r'.log)
    (hf : r'.forceCancelFrom = r.forceCancelFrom)
    (hm : ∀ e ∈ more, e.status ≠ .canceled ∧ e.status ≠ .forceCanceled) : r'.Cooled where
  path := hp
  available := by
    have hn : RunStatus.canceled ∉ statuses more := by
      intro hc
      obtain ⟨e, he, hs⟩ := List.mem_map.mp hc
      exact (hm e he).1 hs
    unfold timeOf?
    rw [hf, h.available, hlog, Entered.timeOf?_append_of_notMem hn]
    rfl
  forced := by
    have hmore : more.IsChain fun e f =>
        f.status = .forceCanceled → e.status = .canceled ∧ e.time.addSeconds coolOff < f.time :=
      List.Pairwise.isChain <| List.pairwise_of_forall_mem_list fun _ _ f hf hs =>
        absurd hs (hm f hf).2
    rw [hlog]
    exact h.forced.append hmore fun _ _ f hf hs => absurd hs (hm f (List.mem_of_head? hf)).2

/-- **Every outcome keeps a run cooled.** -/
theorem outcome (ho : Outcome r now later action r') : r'.Cooled := by
  have hp := ho.advance.isPath h.path
  cases ho.advance with
  | stays hs hl hf =>
    have hlog : r'.log = r.log ++ [] := by rw [hl, List.append_nil]
    exact h.goes_on hlog hp hf nofun
  | enters s _ _ hnc hnf hs hlog =>
    refine h.goes_on hlog hp (ho.forceCancelFrom_eq (hs ▸ hnc)) fun e he => ?_
    rw [List.mem_singleton.mp he]
    exact ⟨hnc, hnf⟩
  | confirmed result _ _ hs hlog =>
    rw [List.append_assoc] at hlog
    refine h.goes_on hlog hp (ho.forceCancelFrom_eq (hs ▸ nofun)) fun e he => ?_
    rcases List.mem_cons.mp he with rfl | he
    · exact ⟨nofun, nofun⟩
    · rw [List.mem_singleton.mp he]
      exact ⟨nofun, nofun⟩
  | canceled _ _ _ hlog hf =>
    refine ⟨hp, ?_, ?_⟩
    · -- the status is entered once, so this is its time
      have hm : (⟨.canceled, now⟩ : Entered RunStatus) ∈ r'.log :=
        hlog ▸ List.mem_append_right _ (List.mem_singleton_self _)
      have ht : r'.timeOf? .canceled = some now :=
        (Entered.timeOf?_eq_some_iff (hp.nodup _ RunStatus.rank_lt_of_leadsTo) _ _).mpr hm
      rw [hf, ht]
      rfl
    · rw [hlog]
      refine h.forced.append (List.isChain_singleton _) fun _ _ f hf hs => ?_
      obtain rfl := Option.some.inj hf
      cases hs
  | forced available _ hr ha hlt hs hlog =>
    refine ⟨hp, ?_, ?_⟩
    · have hn : RunStatus.canceled ∉ statuses [⟨.forceCanceled, now⟩] := by simp
      unfold timeOf?
      rw [ho.forceCancelFrom_eq (hs ▸ nofun), h.available, hlog, Entered.timeOf?_append_of_notMem hn]
      rfl
    · rw [hlog]
      refine h.forced.append (List.isChain_singleton _) fun e he f hf _ => ?_
      obtain rfl := Option.some.inj hf
      obtain ⟨e', he', hm, hes⟩ := h.exists_last
      obtain rfl := Option.some.inj (he'.symm.trans he)
      have hc : e'.status = .canceled := hes.trans hr
      obtain rfl := Option.some.inj ((h.available_of_mem hm hc).symm.trans ha)
      exact ⟨hc, hlt⟩

end Step

theorem after (h : r.Cooled) (history : List Attempt) : (r.after history).Cooled :=
  after_induction (fun _ _ _ _ _ h ho => h.outcome ho) h history

end Cooled

/-- **Cancels agree with the history.** After any history of attempts on a new run, a cancel has an agent
told to stop if and only if a phase is running. It is laid down when the run may be canceled by force if
and only if the log has a cancel, and this is ten seconds after that, its only one. A forced cancel
succeeds at exactly the later instants, as long as the run is canceled; so in the log each one directly
follows a cancel, more than ten seconds after it. -/
theorem cancels_agree (number : ℕ) (opts : NewRun) (now : Instant) (history : List Attempt) :
    let r := (Run.new number opts now).after history
    (∀ t, (∃ r', r.cancel t = .ok (r', true)) ↔ ∃ kind, (r.phase kind).status = .running) ∧
      (r.forceCancelFrom.isSome = true ↔ .canceled ∈ statuses r.log) ∧
      (statuses r.log).count .canceled ≤ 1 ∧
      (∀ e ∈ r.log, e.status = .canceled → r.forceCancelFrom = some (e.time.addSeconds 10)) ∧
      (∀ t, (∃ r', r.forceCancelAt t = .ok r') ↔ r.status = .canceled ∧
        ∃ e ∈ r.log, e.status = .canceled ∧ e.time.addSeconds 10 < t) ∧
      (∀ before f rest, r.log = before ++ f :: rest → f.status = .forceCanceled →
        ∃ e, before.getLast? = some e ∧ e.status = .canceled ∧ e.time.addSeconds 10 < f.time) := by
  intro r
  have hr : r.Coupled := (coupled_new number opts now).after history
  have hc : r.Cooled := (Cooled.new number opts now).after history
  exact ⟨hr.cancel_ok_true_iff, hc.isSome_available_iff, List.nodup_iff_count_le_one.mp hc.nodup _,
    fun _ => hc.available_of_mem, hc.forceCancelAt_ok_iff, fun _ _ _ => hc.forced_of_split⟩

/-- A forced cancel at the end of the cool-off is refused, and one right after it succeeds. -/
theorem cancels_agree_coolOff :
    let at' (second : ℤ) (nano : ℕ) : Instant := ⟨second, nano⟩
    let history : List Attempt :=
      [⟨.enqueuePlan, at' 1 0, at' 1 0⟩, ⟨.start .plan "agent-1", at' 2 0, at' 2 0⟩,
        ⟨.cancel, at' 3 0, at' 3 0⟩, ⟨.cancel, at' 4 0, at' 4 0⟩, ⟨.forceCancel, at' 13 0, at' 13 0⟩,
        ⟨.forceCancel, at' 13 1, at' 13 1⟩]
    let r (n : ℕ) := (Run.new 1 {} (at' 0 0)).after (history.take n)
    (∃ r', (r 2).cancel (at' 3 0) = .ok (r', true)) ∧
      (r 6).forceCancelFrom = some (at' 13 0) ∧ (¬ ∃ r', (r 4).forceCancelAt (at' 13 0) = .ok r') ∧
      (∃ r', (r 5).forceCancelAt (at' 13 1) = .ok r') ∧
      statuses (r 6).log = [.pending, .planQueued, .planning, .canceled, .forceCanceled] := by
  intro at' history r
  obtain ⟨hsignal, -⟩ := cancels_agree 1 {} (at' 0 0) (history.take 2)
  obtain ⟨-, -, -, -, hrefused, -⟩ := cancels_agree 1 {} (at' 0 0) (history.take 4)
  obtain ⟨-, -, -, -, hforced, -⟩ := cancels_agree 1 {} (at' 0 0) (history.take 5)
  obtain ⟨-, -, -, hset, -, -⟩ := cancels_agree 1 {} (at' 0 0) (history.take 6)
  refine ⟨(hsignal _).mpr ⟨.plan, by decide⟩, hset ⟨.canceled, at' 3 0⟩ (by decide) rfl,
    fun h => absurd ((hrefused _).mp h).2 (by decide),
    (hforced _).mpr ⟨by decide, ⟨.canceled, at' 3 0⟩, by decide, rfl, by decide⟩, by decide⟩

end Run

end Provision
