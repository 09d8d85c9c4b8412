import Mathlib.Data.List.Perm.Subperm
import Provision.Proofs.Run.Outcome

/-!
# The history of a run

* `RunStatus.rank`: how far along a status is. Every edge of the chart of statuses goes up in rank.
* `Run.Advance`: what an action does to the status and the log of a run, whatever it does to the phases.
* `Attempt.readings`: when an attempt reads the clock. A forced cancel is given its instant instead.
* `Run.simple_path_after`: after any history of attempts the log is a path of the chart on which no
  status comes twice, and its times never decrease if the clock never went backwards.
-/

namespace Provision

namespace RunStatus

/-- How far along a status is. -/
def rank : RunStatus → ℕ
  | .pending => 0
  | .planQueued => 1
  | .planning => 2
  | .planned => 3
  | .applyQueued => 4
  | .applying => 5
  | .plannedAndFinished | .applied | .errored | .discarded | .canceled => 6
  | .forceCanceled => 7

theorem rank_lt_of_leadsTo (a b : RunStatus) (h : a.leadsTo b = true) : a.rank < b.rank := by
  cases a <;> cases b <;> simp_all [leadsTo, rank]

theorem rank_lt (s : RunStatus) : s.rank < 8 := by
  cases s <;> decide

theorem leadsTo_canceled {s : RunStatus} (h : s.isDone = false) : s.leadsTo .canceled = true := by
  cases s <;> first | rfl | cases h

end RunStatus

/-! ## The order of time -/

namespace Instant

instance : Preorder Instant where
  le_refl t := .inr ⟨rfl, le_rfl⟩
  le_trans a b c hab hbc := by
    change a.second < b.second ∨ a.second = b.second ∧ a.nano ≤ b.nano at hab
    change b.second < c.second ∨ b.second = c.second ∧ b.nano ≤ c.nano at hbc
    change a.second < c.second ∨ a.second = c.second ∧ a.nano ≤ c.nano
    omega
  lt_iff_le_not_ge a b := by
    change (_ ∨ _) ↔ (_ ∨ _) ∧ ¬ (_ ∨ _)
    omega

theorem le_addSeconds (t : Instant) {seconds : ℤ} (h : 0 ≤ seconds) : t ≤ t.addSeconds seconds := by
  change t.second < t.second + seconds ∨ t.second = t.second + seconds ∧ t.nano ≤ t.nano
  omega

theorem addSeconds_le_addSeconds {a b : Instant} (h : a ≤ b) (seconds : ℤ) :
    a.addSeconds seconds ≤ b.addSeconds seconds := by
  rcases h with h | ⟨h, h'⟩
  · exact .inl (Int.add_lt_add_right h seconds)
  · exact .inr ⟨congrArg (· + seconds) h, h'⟩

theorem areOrdered_iff (times : List Instant) : areOrdered times = true ↔ times.Pairwise (· ≤ ·) := by
  rw [← List.isChain_iff_pairwise]
  induction times with
  | nil => simp [areOrdered]
  | cons a rest ih =>
    cases rest with
    | nil => simp [areOrdered]
    | cons b rest => rw [areOrdered, Bool.and_eq_true, ih, List.isChain_cons_cons, decide_eq_true_iff]

end Instant

namespace Entered

variable {σ : Type} {next : σ → σ → Bool} {start current : σ} {log : List (Entered σ)}

/-- **A path is no longer than there are ranks.** -/
theorem IsPath.length_le (h : IsPath next start current log) (rank : σ → ℕ)
    (up : ∀ a b, next a b = true → rank a < rank b) {bound : ℕ} (hb : ∀ s, rank s < bound) :
    log.length ≤ bound := by
  have hr : ((statuses log).map rank).IsChain (· < ·) := by
    rw [List.isChain_map]
    exact h.chain.imp fun a b hab => up a b hab
  have hn : ((statuses log).map rank).Nodup :=
    (List.isChain_iff_pairwise.mp hr).imp fun hab => ne_of_lt hab
  have hs : (statuses log).map rank ⊆ List.range bound := by
    intro n hn
    obtain ⟨s, -, rfl⟩ := List.mem_map.mp hn
    exact List.mem_range.mpr (hb s)
  simpa [statuses] using (List.subperm_of_subset hn hs).length_le

theorem timeOf?_eq_some_iff [DecidableEq σ] (hn : (statuses log).Nodup) (s : σ) (t : Instant) :
    timeOf? log s = some t ↔ (⟨s, t⟩ : Entered σ) ∈ log := by
  unfold timeOf?
  rw [Option.map_eq_some_iff]
  induction log with
  | nil => simp
  | cons e rest ih =>
    obtain ⟨hne, hr⟩ := List.nodup_cons.mp hn
    by_cases he : e.status = s
    · rw [List.find?_cons_of_pos (by simpa using he), List.mem_cons]
      constructor
      · rintro ⟨x, hx, rfl⟩
        obtain rfl := Option.some.inj hx
        exact .inl (he ▸ rfl)
      · rintro (hm | hm)
        · exact ⟨e, rfl, hm ▸ rfl⟩
        · exact absurd (List.mem_map.mpr ⟨_, hm, he.symm⟩) hne
    · rw [List.find?_cons_of_neg (by simpa using he), ih hr, List.mem_cons]
      refine (or_iff_right ?_).symm
      rintro rfl
      exact he rfl

end Entered

/-! ## What an action does to the log -/

namespace Run

open Entered (IsPath statuses)

/-- What an action does to the status and the log of a run. -/
inductive Advance (r r' : Run) (now later : Instant) (action : Action) : Prop
  | stays : r'.status = r.status → r'.log = r.log → r'.forceCancelFrom = r.forceCancelFrom →
      Advance r r' now later action
  | enters (s : RunStatus) : action ≠ .forceCancel → r.status.leadsTo s = true → s ≠ .canceled →
      s ≠ .forceCanceled → r'.status = s → r'.log = r.log ++ [⟨s, now⟩] →
      Advance r r' now later action
  /-- The plan ends and is confirmed at once. -/
  | confirmed (result : PhaseResult) : action = .finish .plan result → r.status = .planning →
      r'.status = .applyQueued → r'.log = r.log ++ [⟨.planned, now⟩] ++ [⟨.applyQueued, later⟩] →
      Advance r r' now later action
  | canceled : action = .cancel → r.status.leadsTo .canceled = true → r'.status = .canceled →
      r'.log = r.log ++ [⟨.canceled, now⟩] → r'.forceCancelFrom = some (now.addSeconds coolOff) →
      Advance r r' now later action
  | forced (available : Instant) : action = .forceCancel → r.status = .canceled →
      r.forceCancelFrom = some available → available < now → r'.status = .forceCanceled →
      r'.log = r.log ++ [⟨.forceCanceled, now⟩] → Advance r r' now later action

variable {r r' : Run} {now later : Instant} {action : Action}

theorem Advance.rank_le (h : r.Advance r' now later action) : r.status.rank ≤ r'.status.rank := by
  cases h with
  | stays hs _ _ => rw [hs]
  | enters s _ hl _ _ hs _ => exact hs ▸ (RunStatus.rank_lt_of_leadsTo _ _ hl).le
  | confirmed result _ hr hs _ => exact hr ▸ hs ▸ (by decide)
  | canceled _ hl hs _ _ => exact hs ▸ (RunStatus.rank_lt_of_leadsTo _ _ hl).le
  | forced available _ hr _ _ hs _ => exact hr ▸ hs ▸ (by decide)

/-- **Every action advances the run along the chart**, or leaves its status alone. -/
theorem Outcome.advance (h : Outcome r now later action r') : r.Advance r' now later action := by
  have hopen : ∀ {s s' : RunStatus}, r.status = s → s.leadsTo s' = true →
      r.status.leadsTo s' = true := fun hs hl => hs ▸ hl
  cases h with
  | enqueuePlan hs => exact .enters .planQueued nofun (hopen hs rfl) nofun nofun rfl rfl
  | enqueueApply hs => exact .enters .applyQueued nofun (hopen hs rfl) nofun nofun rfl rfl
  | startPlan agent hs => exact .enters .planning nofun (hopen hs rfl) nofun nofun rfl rfl
  | startApply agent hs => exact .enters .applying nofun (hopen hs rfl) nofun nofun rfl rfl
  | late => exact .stays rfl rfl rfl
  | planErrored result hs => exact .enters .errored nofun (hopen hs rfl) nofun nofun rfl rfl
  | planEnded result report hs =>
    exact .enters .plannedAndFinished nofun (hopen hs rfl) nofun nofun rfl rfl
  | planned result report hs => exact .enters .planned nofun (hopen hs rfl) nofun nofun rfl rfl
  | confirmed result report hs => exact .confirmed result rfl hs rfl rfl
  | applyErrored result hs => exact .enters .errored nofun (hopen hs rfl) nofun nofun rfl rfl
  | applied result hs => exact .enters .applied nofun (hopen hs rfl) nofun nofun rfl rfl
  | canceled hd =>
    have hlog : (r.abandonPhases now).log = r.log := by
      unfold abandonPhases
      split <;> rfl
    exact .canceled rfl (RunStatus.leadsTo_canceled hd) rfl (congrArg (· ++ _) hlog) rfl
  | forceCanceled available hs ha hlt => exact .forced available rfl hs ha hlt rfl rfl
  | discardedEarly hs => exact .enters .discarded nofun (hopen hs rfl) nofun nofun rfl rfl
  | discardedLate hs => exact .enters .discarded nofun (hopen hs rfl) nofun nofun rfl rfl
  | setAutoApply value => exact .stays rfl rfl rfl

/-- **The log stays a path.** -/
theorem Advance.isPath (h : r.Advance r' now later action)
    (hp : IsPath RunStatus.leadsTo .pending r.status r.log) :
    IsPath RunStatus.leadsTo .pending r'.status r'.log := by
  cases h with
  | stays hs hl _ => exact hs ▸ hl ▸ hp
  | enters s _ hl _ _ hs hlog => exact hs ▸ hlog ▸ hp.enter hl now
  | confirmed result _ hr hs hlog =>
    have hl : r.status.leadsTo .planned = true := hr ▸ rfl
    exact hs ▸ hlog ▸ (hp.enter hl now).enter rfl later
  | canceled _ hl hs hlog _ => exact hs ▸ hlog ▸ hp.enter hl now
  | forced available _ hr _ _ hs hlog =>
    have hl : r.status.leadsTo .forceCanceled = true := hr ▸ rfl
    exact hs ▸ hlog ▸ hp.enter hl now

/-! ## Times -/

/-- The readings of the clock that an attempt takes, in their order. -/
def Attempt.readings (a : Attempt) : List Instant :=
  match a.action with
  | .forceCancel => []
  | .finish _ _ => [a.now, a.later]
  | _ => [a.now]

theorem Attempt.readings_eq_cons (a : Attempt) (h : a.action ≠ .forceCancel) :
    ∃ rest, a.readings = a.now :: rest := by
  unfold readings
  split
  · next hf => exact absurd hf h
  · exact ⟨_, rfl⟩
  · exact ⟨_, rfl⟩

/-- What holds of the times in a log when the clock has come to an instant. -/
structure Timely (clock : Instant) (r : Run) : Prop where
  ordered : (r.log.map (·.time)).Pairwise (· ≤ ·)
  /-- All entries are of the past, except for that of a forced cancel. -/
  past : r.status ≠ .forceCanceled → ∀ e ∈ r.log, e.time ≤ clock
  /-- A forced cancel comes after the cool-off, hence after all entries. -/
  cooling : r.status = .canceled → ∀ available, r.forceCancelFrom = some available →
    ∀ e ∈ r.log, e.time.addSeconds coolOff ≤ available

section Timely

variable {clock t : Instant} {log : List (Entered RunStatus)} {e : Entered RunStatus}

theorem pairwise_concat (h : (log.map (·.time)).Pairwise (· ≤ ·)) (he : ∀ x ∈ log, x.time ≤ e.time) :
    ((log ++ [e]).map (·.time)).Pairwise (· ≤ ·) := by
  rw [List.map_append, List.pairwise_append]
  refine ⟨h, List.pairwise_singleton _ _, fun a ha b hb => ?_⟩
  obtain ⟨x, hx, rfl⟩ := List.mem_map.mp ha
  rw [List.mem_singleton.mp hb]
  exact he x hx

theorem forall_mem_concat (h : ∀ x ∈ log, x.time ≤ t) (he : e.time ≤ t) :
    ∀ x ∈ log ++ [e], x.time ≤ t := by
  intro x hx
  rcases List.mem_append.mp hx with hx | hx
  · exact h x hx
  · exact List.mem_singleton.mp hx ▸ he

theorem le_getLastD {times : List Instant} (h : (t :: times).Pairwise (· ≤ ·)) :
    ∀ x ∈ t :: times, x ≤ times.getLastD t := by
  induction times generalizing t with
  | nil =>
    intro x hx
    rw [List.mem_singleton.mp hx]
    exact le_rfl
  | cons u rest ih =>
    obtain ⟨ht, hr⟩ := List.pairwise_cons.mp h
    intro x hx
    rw [List.getLastD_cons]
    rcases List.mem_cons.mp hx with rfl | hx
    · exact (ht u List.mem_cons_self).trans (ih hr u List.mem_cons_self)
    · exact ih hr x hx

theorem getLastD_mem_cons (t : Instant) (times : List Instant) : times.getLastD t ∈ t :: times := by
  induction times generalizing t with
  | nil => exact List.mem_singleton_self t
  | cons u rest ih =>
    rw [List.getLastD_cons]
    exact List.mem_cons_of_mem t (ih u)

theorem timely_new (number : ℕ) (opts : NewRun) (now : Instant) :
    (Run.new number opts now).Timely now where
  ordered := List.pairwise_singleton _ _
  past _ e he := by rw [List.mem_singleton.mp he]
  cooling h := by cases h

theorem Timely.past_of_leadsTo {s : RunStatus} (h : r.Timely clock)
    (hl : r.status.leadsTo s = true) : ∀ e ∈ r.log, e.time ≤ clock := by
  refine h.past fun hf => ?_
  rw [hf] at hl
  cases s <;> cases hl

/-- **The times stay in order**, as long as the clock never goes backwards. -/
theorem Timely.advance {a : Attempt} (h : r.Timely clock) (ha : r.Advance r' a.now a.later a.action)
    (hc : (clock :: a.readings).Pairwise (· ≤ ·)) : r'.Timely (a.readings.getLastD clock) := by
  have hlast := le_getLastD hc
  have hclock := hlast clock List.mem_cons_self
  have hnow : a.action ≠ .forceCancel → clock ≤ a.now ∧ a.now ≤ a.readings.getLastD clock := by
    intro hne
    obtain ⟨rest, hr⟩ := a.readings_eq_cons hne
    have hm : a.now ∈ a.readings := hr ▸ List.mem_cons_self
    exact ⟨(List.pairwise_cons.mp hc).1 _ hm, hlast _ (List.mem_cons_of_mem _ hm)⟩
  cases ha with
  | stays hs hl hf =>
    refine ⟨hl ▸ h.ordered, fun hne e he => ?_, fun hst available hav => ?_⟩
    · exact (h.past (hs ▸ hne) e (hl ▸ he)).trans hclock
    · rw [hl]
      exact h.cooling (hs ▸ hst) available (hf ▸ hav)
  | enters s hne hl hnc _ hs hlog =>
    obtain ⟨hn, hn'⟩ := hnow hne
    have hp : ∀ x ∈ r.log, x.time ≤ a.now := fun x hx => (h.past_of_leadsTo hl x hx).trans hn
    refine ⟨hlog ▸ pairwise_concat h.ordered hp, fun _ => ?_, fun hst => absurd (hs ▸ hst) hnc⟩
    rw [hlog]
    exact forall_mem_concat (fun x hx => (hp x hx).trans hn') hn'
  | confirmed result hact hr hs hlog =>
    have hread : a.readings = [a.now, a.later] := by rw [Attempt.readings, hact]
    obtain ⟨hn, -⟩ := hnow (by rw [hact]; nofun)
    have hl : r.status.leadsTo .planned = true := hr ▸ rfl
    have hnl : a.now ≤ a.later := by
      rw [hread] at hc
      exact (List.pairwise_cons.mp (List.pairwise_cons.mp hc).2).1 _ (List.mem_singleton_self _)
    have hp : ∀ x ∈ r.log, x.time ≤ a.now := fun x hx => (h.past_of_leadsTo hl x hx).trans hn
    have hp' : ∀ x ∈ r.log ++ [⟨.planned, a.now⟩], x.time ≤ a.later :=
      forall_mem_concat (fun x hx => (hp x hx).trans hnl) hnl
    refine ⟨hlog ▸ pairwise_concat (pairwise_concat h.ordered hp) hp', fun _ => ?_, fun hst => ?_⟩
    · rw [hlog, hread]
      exact forall_mem_concat hp' le_rfl
    · cases hs.symm.trans hst
  | canceled hact hl hs hlog hf =>
    obtain ⟨hn, hn'⟩ := hnow (by rw [hact]; nofun)
    have hp : ∀ x ∈ r.log, x.time ≤ a.now := fun x hx => (h.past_of_leadsTo hl x hx).trans hn
    have hall : ∀ x ∈ r'.log, x.time ≤ a.now := hlog ▸ forall_mem_concat hp le_rfl
    refine ⟨hlog ▸ pairwise_concat h.ordered hp, fun _ x hx => (hall x hx).trans hn', ?_⟩
    intro _ available hav x hx
    obtain rfl := Option.some.inj (hf.symm.trans hav)
    exact Instant.addSeconds_le_addSeconds (hall x hx) coolOff
  | forced available _ hr hf hlt hs hlog =>
    have hp : ∀ x ∈ r.log, x.time ≤ a.now := fun x hx =>
      (Instant.le_addSeconds x.time (by decide)).trans
        ((h.cooling hr available hf x hx).trans hlt.le)
    refine ⟨hlog ▸ pairwise_concat h.ordered hp, fun hne => absurd hs hne, fun hst => ?_⟩
    cases hs.symm.trans hst

theorem Timely.after {history : List Attempt} (h : r.Timely clock)
    (hc : (clock :: history.flatMap Attempt.readings).Pairwise (· ≤ ·)) :
    ∃ clock', (r.after history).Timely clock' := by
  induction history generalizing r clock with
  | nil => exact ⟨clock, h⟩
  | cons a rest ih =>
    rw [List.flatMap_cons, ← List.cons_append, List.pairwise_append] at hc
    obtain ⟨ha, hrest, hle⟩ := hc
    have hlast := le_getLastD ha
    have hmem := getLastD_mem_cons clock a.readings
    have hstep : (r.attempt a).Timely (a.readings.getLastD clock) := by
      rcases attempt_cases r a with he | ho
      · rw [he]
        have hclock := hlast clock List.mem_cons_self
        exact ⟨h.ordered, fun hs e he => (h.past hs e he).trans hclock, h.cooling⟩
      · exact h.advance ho.advance ha
    exact ih hstep (List.pairwise_cons.mpr ⟨fun x hx => hle _ hmem x hx, hrest⟩)

end Timely

/-- **The history of a run is a simple path.** After any history of attempts on a new run, refused ones
included, its log is a path of the chart from pending to the present status, which enters no status
twice and hence at most eight; the time of a status is that of its only entry. The times never decrease
if the readings of the clock never did, whatever instants forced cancels were given. -/
theorem simple_path_after (number : ℕ) (opts : NewRun) (now : Instant) (history : List Attempt) :
    let r := (Run.new number opts now).after history
    IsPath RunStatus.leadsTo .pending r.status r.log ∧ (statuses r.log).Nodup ∧ r.log.length ≤ 8 ∧
      (∀ s t, r.timeOf? s = some t ↔ (⟨s, t⟩ : Entered RunStatus) ∈ r.log) ∧
        (Instant.areOrdered (now :: history.flatMap Attempt.readings) = true →
          Instant.areOrdered (r.log.map (·.time)) = true) := by
  intro r
  have hp : IsPath RunStatus.leadsTo .pending r.status r.log :=
    after_induction (P := fun r => IsPath RunStatus.leadsTo .pending r.status r.log)
      (fun _ _ _ _ _ h ho => ho.advance.isPath h) (.single _ _ _) history
  have hn := hp.nodup RunStatus.rank RunStatus.rank_lt_of_leadsTo
  refine ⟨hp, hn, hp.length_le _ RunStatus.rank_lt_of_leadsTo RunStatus.rank_lt,
    Entered.timeOf?_eq_some_iff hn, fun hc => ?_⟩
  rw [Instant.areOrdered_iff] at hc ⊢
  obtain ⟨clock, ht⟩ := (timely_new number opts now).after hc
  exact ht.ordered

theorem simple_path_after_forceCanceled :
    let at' (second : ℤ) : Instant := ⟨second, 0⟩
    let history : List Attempt :=
      [⟨.enqueuePlan, at' 1, at' 1⟩, ⟨.start .plan "agent-1", at' 2, at' 2⟩,
        ⟨.finish .plan ⟨false, some ⟨1, 0, 0⟩⟩, at' 3, at' 4⟩, ⟨.discard, at' 4, at' 4⟩,
        ⟨.cancel, at' 5, at' 5⟩, ⟨.forceCancel, at' 900, at' 0⟩]
    let r := (Run.new 1 { autoApply := true } (at' 0)).after history
    Instant.areOrdered (at' 0 :: history.flatMap Attempt.readings) = true ∧
      Instant.areOrdered (r.log.map (·.time)) = true ∧
        statuses r.log = [.pending, .planQueued, .planning, .planned, .applyQueued, .canceled,
          .forceCanceled] :=
  ⟨by decide, (simple_path_after 1 { autoApply := true } _ _).2.2.2.2 (by decide), by decide⟩

end Run

end Provision
