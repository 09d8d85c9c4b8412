import Provision.Proofs.Agent.Course

/-!
# No phase is claimed twice

* `Fleet.Tells`: a trace tells of all jobs of an agent how far they have come.
* `Fleet.Sound`: what holds of every fleet. Its heart is that no phase is claimed twice, since a phase is
  past being queued as soon as it is claimed.
* `Fleet.Move.sound`: no move ends that.
* `Fleet.Sound.doer_eq_iff`: whatever is done for a phase is done by one job.
-/

namespace Provision

open Identifier (Issued)

theorem Agent.mem_putJob {a : Agent} {j x : Job} (h : x ∈ (a.putJob j).jobs) :
    x = j ∨ x ∈ a.jobs ∧ x.number ≠ j.number := by
  obtain ⟨y, hy, rfl⟩ := List.mem_map.mp h
  by_cases hn : y.number = j.number
  · exact .inl (if_pos hn)
  · exact .inr ((if_neg hn).symm ▸ ⟨hy, hn⟩)

namespace Fleet

variable {ι : Type} [DecidableEq ι]

/-- The claims in a trace. -/
def claims (f : Fleet ι) : List (Act ι) :=
  f.trace.filter (·.work.isClaimed)

/-- The trace tells of all jobs of an agent how far they have come. -/
structure Tells (trace : List (Act ι)) (i : ι) (a : Agent) : Prop where
  numbers : (a.jobs.map (·.number)).Nodup
  below : ∀ j ∈ a.jobs, j.number < a.claims
  course : ∀ j ∈ a.jobs, Course j.stage (courseIn trace i j.number)
  /-- The claim of every job is there. -/
  hired : ∀ j ∈ a.jobs, act i j .claimed ∈ trace
  /-- The jobs that were put away have ended. -/
  joined : ∀ m < a.claims, (∀ j ∈ a.jobs, j.number ≠ m) → Course .ended (courseIn trace i m)
  unborn : ∀ m, a.claims ≤ m → courseIn trace i m = []

/-- What holds of every fleet. -/
structure Sound (f : Fleet ι) : Prop where
  ordered : f.ledger.store.Ordered f.ledger.supply
  tells : ∀ i, Tells f.trace i (f.agent i)
  stopped : ∀ i, f.mode i = .stopped → (f.agent i).jobs = []
  /-- No phase is claimed twice. -/
  once : (f.claims.map (·.subject)).Nodup
  /-- No job claims twice. -/
  single : (f.claims.map (·.doer)).Nodup
  /-- Whatever is done for a phase is done by the job that claimed it. -/
  origin : ∀ a ∈ f.trace, ∃ c ∈ f.claims, c.doer = a.doer ∧ c.subject = a.subject
  past : ∀ a ∈ f.trace, f.ledger.Past a.run a.phase

variable {permits : Request → Prop} {f f' : Fleet ι} {i : ι} {a : Agent} {j j' : Job} {l : Ledger}
  {trace : List (Act ι)} {works : List Work}

theorem mem_courseIn {a : Act ι} {m : ℕ} (ha : a ∈ trace) (hd : a.doer = (i, m)) :
    a.work ∈ courseIn trace i m :=
  List.mem_map.mpr ⟨a, List.mem_filter.mpr ⟨ha, decide_eq_true hd⟩, rfl⟩

theorem courseIn_append (trace : List (Act ι)) (i k : ι) (j : Job) (works : List Work) (m : ℕ) :
    courseIn (trace ++ works.map (act i j)) k m =
      courseIn trace k m ++ if (i, j.number) = (k, m) then works else [] := by
  unfold courseIn
  rw [List.filter_append, List.map_append, List.filter_map, List.map_map]
  congr 1
  by_cases h : (i, j.number) = (k, m)
  · have hall : ∀ w ∈ works, ((fun a : Act ι => decide (a.doer = (k, m))) ∘ act i j) w = true :=
      fun w _ => decide_eq_true h
    rw [if_pos h, List.filter_eq_self.mpr hall]
    exact List.map_id _
  · have hnone : ∀ w ∈ works, ¬ ((fun a : Act ι => decide (a.doer = (k, m))) ∘ act i j) w = true :=
      fun w _ hw => h (of_decide_eq_true hw)
    rw [if_neg h, List.filter_eq_nil_iff.mpr hnone]
    rfl

theorem courseIn_append_self (trace : List (Act ι)) (i : ι) (j : Job) (works : List Work) :
    courseIn (trace ++ works.map (act i j)) i j.number = courseIn trace i j.number ++ works := by
  rw [courseIn_append, if_pos rfl]

theorem courseIn_append_of_ne {k : ι} {m : ℕ} (works : List Work) (h : (i, j.number) ≠ (k, m)) :
    courseIn (trace ++ works.map (act i j)) k m = courseIn trace k m := by
  rw [courseIn_append, if_neg h, List.append_nil]

/-! ## Agents -/

theorem Tells.told (h : Tells trace i a) {a' : Agent} (ht : a.Told a') : Tells trace i a' := by
  obtain ⟨g, hg, hj, hc, -⟩ := ht
  have hmem : ∀ j' ∈ a'.jobs, ∃ j ∈ a.jobs, g j = j' := fun j' hm => List.mem_map.mp (hj ▸ hm)
  have hact : ∀ j, act i (g j) .claimed = act i j .claimed := fun j => by
    rw [act, (hg j).1, (hg j).2.1, act]
  refine ⟨?_, fun j' hm => ?_, fun j' hm => ?_, fun j' hm => ?_, fun m hm hn => ?_, hc ▸ h.unborn⟩
  · rw [hj, List.map_map]
    exact (List.map_congr_left fun j _ => (hg j).1) ▸ h.numbers
  · obtain ⟨j, hj, rfl⟩ := hmem j' hm
    exact (hg j).1 ▸ hc ▸ h.below j hj
  · obtain ⟨j, hj, rfl⟩ := hmem j' hm
    rw [(hg j).1, (hg j).2.2.1]
    exact h.course j hj
  · obtain ⟨j, hj, rfl⟩ := hmem j' hm
    exact hact j ▸ h.hired j hj
  · refine h.joined m (hc ▸ hm) fun j hm => ?_
    rw [← (hg j).1]
    exact hn _ (hj ▸ List.mem_map_of_mem hm)

theorem Tells.remove (h : Tells trace i a) (hm : j ∈ a.jobs) (he : j.stage = .ended) :
    Tells trace i (a.remove j.number) := by
  have hsub : ∀ x ∈ (a.remove j.number).jobs, x ∈ a.jobs := fun x hx => List.mem_of_mem_filter hx
  refine ⟨h.numbers.sublist (List.filter_sublist.map _), fun x hx => h.below x (hsub x hx),
    fun x hx => h.course x (hsub x hx), fun x hx => h.hired x (hsub x hx), fun m hlt hn => ?_,
    h.unborn⟩
  by_cases hjm : j.number = m
  · exact hjm ▸ he ▸ h.course j hm
  · refine h.joined m hlt fun x hx hxm => ?_
    exact hn x (List.mem_filter.mpr ⟨hx, by simpa [hxm] using Ne.symm hjm⟩) hxm

theorem Tells.work (h : Tells trace i a) (hm : j ∈ a.jobs) (hn : j'.number = j.number)
    (hs : j'.spec = j.spec)
    (hc : ∀ did, Course j.stage did → Course j'.stage (did ++ works)) :
    Tells (trace ++ works.map (act i j')) i (a.putJob j') := by
  have hnum : (a.putJob j').jobs.map (·.number) = a.jobs.map (·.number) := by
    rw [Agent.putJob, List.map_map]
    refine List.map_congr_left fun x _ => ?_
    by_cases hx : x.number = j'.number
    · simp [hx]
    · simp [hx]
  have hcourse : ∀ m ≠ j'.number,
      courseIn (trace ++ works.map (act i j')) i m = courseIn trace i m := fun m hne =>
    courseIn_append_of_ne works fun h => hne (congrArg Prod.snd h).symm
  refine ⟨hnum ▸ h.numbers, fun x hx => ?_, fun x hx => ?_, fun x hx => ?_, fun m hlt hne => ?_,
    fun m hle => ?_⟩
  · rcases Agent.mem_putJob hx with rfl | ⟨hx, -⟩
    · exact hn ▸ h.below j hm
    · exact h.below x hx
  · rcases Agent.mem_putJob hx with rfl | ⟨hx, hne⟩
    · rw [courseIn_append_self]
      exact hc _ (hn ▸ h.course j hm)
    · exact (hcourse _ hne).symm ▸ h.course x hx
  · refine List.mem_append_left _ ?_
    rcases Agent.mem_putJob hx with rfl | ⟨hx, -⟩
    · rw [act, hn, hs]
      exact h.hired j hm
    · exact h.hired x hx
  · have hmj : ∀ x ∈ a.jobs, x.number ≠ m := by
      intro x hx hxm
      have hm' : m ∈ (a.putJob j').jobs.map (·.number) := hnum ▸ List.mem_map.mpr ⟨x, hx, hxm⟩
      obtain ⟨x', hx', he⟩ := List.mem_map.mp hm'
      exact hne x' hx' he
    rw [hcourse m fun he => hmj j hm (hn.symm.trans he.symm)]
    exact h.joined m hlt hmj
  · rw [hcourse m fun he => ?_]
    · exact h.unborn m hle
    · have hlt := h.below j hm
      rw [← hn, ← he] at hlt
      exact absurd hle (not_le.mpr hlt)

theorem Tells.other {k : ι} (h : Tells trace k a) (hk : i ≠ k) :
    Tells (trace ++ works.map (act i j)) k a := by
  have hcourse : ∀ m, courseIn (trace ++ works.map (act i j)) k m = courseIn trace k m := fun m =>
    courseIn_append_of_ne works fun h => hk (congrArg Prod.fst h)
  refine ⟨h.numbers, h.below, fun x hx => (hcourse _).symm ▸ h.course x hx,
    fun x hx => List.mem_append_left _ (h.hired x hx),
    fun m hlt hn => (hcourse m).symm ▸ h.joined m hlt hn,
    fun m hle => (hcourse m).trans (h.unborn m hle)⟩

theorem Tells.hire (h : Tells trace i a) (r : Run) (kind : PhaseKind) :
    Tells (trace ++ [act i (Job.ofRun a.claims r kind) .claimed]) i
      { a with jobs := a.jobs ++ [Job.ofRun a.claims r kind], claims := a.claims + 1 } := by
  have hcourse : ∀ m ≠ a.claims,
      courseIn (trace ++ [act i (Job.ofRun a.claims r kind) .claimed]) i m = courseIn trace i m :=
    fun m hne => courseIn_append_of_ne [Work.claimed] fun h => hne (congrArg Prod.snd h).symm
  have hnew : courseIn (trace ++ [act i (Job.ofRun a.claims r kind) .claimed]) i a.claims =
      [.claimed] := by
    refine (courseIn_append_self trace i (Job.ofRun a.claims r kind) [.claimed]).trans ?_
    exact congrArg (· ++ _) (h.unborn _ le_rfl)
  have hmem : ∀ j ∈ a.jobs ++ [Job.ofRun a.claims r kind], j ∈ a.jobs ∨
      j = Job.ofRun a.claims r kind := fun j hj =>
    (List.mem_append.mp hj).imp_right List.mem_singleton.mp
  refine ⟨?_, fun j hj => ?_, fun j hj => ?_, fun j hj => ?_, fun m hlt hne => ?_, fun m hle => ?_⟩
  · rw [List.map_append]
    refine List.nodup_append.mpr ⟨h.numbers, List.nodup_singleton _, fun m hm k hk hmk => ?_⟩
    obtain ⟨j, hj, rfl⟩ := List.mem_map.mp hm
    have hk : k = a.claims := List.mem_singleton.mp hk
    exact (h.below j hj).ne (hmk.trans hk)
  · rcases hmem j hj with hj | rfl
    · exact (h.below j hj).trans (Nat.lt_succ_self _)
    · exact Nat.lt_succ_self _
  · rcases hmem j hj with hj | rfl
    · exact (hcourse _ (h.below j hj).ne).symm ▸ h.course j hj
    · exact hnew.symm ▸ .claimed
  · rcases hmem j hj with hj | rfl
    · exact List.mem_append_left _ (h.hired j hj)
    · exact List.mem_append_right _ (List.mem_singleton_self _)
  · have hne' : m ≠ a.claims := fun he =>
      hne _ (List.mem_append_right _ (List.mem_singleton_self _)) he.symm
    rw [hcourse m hne']
    exact h.joined m (by change m < a.claims + 1 at hlt; omega) fun j hj =>
      hne j (List.mem_append_left _ hj)
  · have hle : a.claims + 1 ≤ m := hle
    exact (hcourse m (by omega)).trans (h.unborn m (by omega))

/-! ## Moves -/

theorem Tells.idle (h : a.jobs = []) (hc : a.claims = 0) : Tells [] i a := by
  have hnone : ∀ j, j ∉ a.jobs := fun j hj => List.not_mem_nil (h ▸ hj)
  refine ⟨h ▸ List.nodup_nil, fun j hj => absurd hj (hnone j), fun j hj => absurd hj (hnone j),
    fun j hj => absurd hj (hnone j), fun m hm => ?_, fun _ _ => rfl⟩
  exact absurd (hc ▸ hm) (Nat.not_lt_zero m)

theorem Sound.idle (agents : ι → String × ℕ) : Sound (Fleet.idle agents) where
  ordered := .empty
  tells _ := .idle rfl rfl
  stopped _ _ := rfl
  once := List.nodup_nil
  single := List.nodup_nil
  origin _ ha := absurd ha List.not_mem_nil
  past _ ha := absurd ha List.not_mem_nil

theorem Sound.ledger (h : Sound f) (he : f.ledger.Evolves l) : Sound { f with ledger := l } :=
  ⟨he.ordered h.ordered, h.tells, h.stopped, h.once, h.single, h.origin,
    fun a ha => he.past (h.past a ha)⟩

theorem Sound.put (h : Sound f) {w : Worker} (ht : Tells f.trace i w.agent)
    (hs : w.mode = .stopped → w.agent.jobs = []) : Sound (f.put i w) where
  ordered := h.ordered
  tells := forall_put (P := fun k w => Tells f.trace k w.agent) ht fun k _ => h.tells k
  stopped := forall_put (P := fun _ w => w.mode = .stopped → w.agent.jobs = []) hs
    fun k _ => h.stopped k
  once := h.once
  single := h.single
  origin := h.origin
  past := h.past

theorem Sound.turn (h : Sound f) (mode : Worker.Mode) (hs : mode = .stopped → (f.agent i).jobs = []) :
    Sound (f.turn i mode) :=
  h.put (h.tells i) hs

theorem Sound.revise (h : Sound f) {change : Agent → Agent} (hm : f.mode i ≠ .stopped)
    (ht : Tells f.trace i (change (f.agent i))) : Sound (f.revise i change) :=
  h.put ht fun hs => absurd hs hm

theorem Sound.mode_ne_stopped (h : Sound f) (hm : j ∈ (f.agent i).jobs) : f.mode i ≠ .stopped :=
  fun hs => List.not_mem_nil (h.stopped i hs ▸ hm)

theorem Sound.extend (h : Sound f) {change : Agent → Agent} (hm : f.mode i ≠ .stopped)
    (he : f.ledger.Evolves l) (ht : Tells (f.trace ++ works.map (act i j)) i (change (f.agent i)))
    (ho : ((f.claims ++ (works.map (act i j)).filter (·.work.isClaimed)).map (·.subject)).Nodup)
    (hs : ((f.claims ++ (works.map (act i j)).filter (·.work.isClaimed)).map (·.doer)).Nodup)
    (hc : ∃ c ∈ f.claims ++ (works.map (act i j)).filter (·.work.isClaimed),
      c.doer = (i, j.number) ∧ c.subject = (j.spec.run, j.spec.phase))
    (hp : l.Past j.spec.run j.spec.phase) :
    Sound { f.revise i change with ledger := l, trace := f.trace ++ works.map (act i j) } := by
  have hclaims : { f.revise i change with
      ledger := l, trace := f.trace ++ works.map (act i j) }.claims =
        f.claims ++ (works.map (act i j)).filter (·.work.isClaimed) := List.filter_append ..
  refine ⟨he.ordered h.ordered, ?_, ?_, hclaims ▸ ho, hclaims ▸ hs, fun a ha => ?_, fun a ha => ?_⟩
  · exact forall_put (P := fun k w => Tells (f.trace ++ works.map (act i j)) k w.agent) ht
      fun k hk => (h.tells k).other hk.symm
  · exact forall_put (P := fun _ w => w.mode = .stopped → w.agent.jobs = []) (fun hs => absurd hs hm)
      fun k _ => h.stopped k
  · rw [hclaims]
    rcases List.mem_append.mp ha with ha | ha
    · obtain ⟨c, hcm, hdoer, hsubject⟩ := h.origin a ha
      exact ⟨c, List.mem_append_left _ hcm, hdoer, hsubject⟩
    · obtain ⟨w, -, rfl⟩ := List.mem_map.mp ha
      exact hc
  · rcases List.mem_append.mp ha with ha | ha
    · exact he.past (h.past a ha)
    · obtain ⟨w, -, rfl⟩ := List.mem_map.mp ha
      exact hp

/-- **A job goes on.** -/
theorem Sound.work (h : Sound f) (hm : j ∈ (f.agent i).jobs) (hn : j'.number = j.number)
    (hs : j'.spec = j.spec) (he : f.ledger.Evolves l)
    (hc : ∀ did, Course j.stage did → Course j'.stage (did ++ works))
    (hw : ∀ w ∈ works, w.isClaimed = false) : Sound (f.work i j' l works) := by
  have hhired := (h.tells i).hired j hm
  have hnone : (works.map (act i j')).filter (·.work.isClaimed) = [] := by
    refine List.filter_eq_nil_iff.mpr fun a ha => ?_
    obtain ⟨w, hwm, rfl⟩ := List.mem_map.mp ha
    exact Bool.eq_false_iff.mp (hw w hwm)
  refine h.extend (h.mode_ne_stopped hm) he ((h.tells i).work hm hn hs hc) ?_ ?_ ?_ ?_
  · rw [hnone, List.append_nil]
    exact h.once
  · rw [hnone, List.append_nil]
    exact h.single
  · rw [hnone, List.append_nil, hn, hs]
    exact ⟨_, List.mem_filter.mpr ⟨hhired, rfl⟩, rfl, rfl⟩
  · rw [hs]
    exact he.past (h.past _ hhired)

/-- **An agent has claimed a phase**, which nobody had claimed before since it was still queued. -/
theorem Sound.hire (h : Sound f) (hm : f.mode i ≠ .stopped) {kind : PhaseKind} {r r' : Run}
    (hr : f.ledger.store.run? r.id = some r) {now later : Instant} {agent : String}
    (ho : r.Outcome now later (.start kind agent) r') (he : f.ledger.Evolves (f.ledger.putRun r')) :
    Sound { f.revise i fun a => { a with
        jobs := a.jobs ++ [Job.ofRun a.claims r' kind], claims := a.claims + 1 } with
      ledger := f.ledger.putRun r'
      trace := f.trace ++ [Work.claimed].map (act i (Job.ofRun (f.agent i).claims r' kind)) } := by
  obtain ⟨hq, hx⟩ := ho.start_queued
  have hid : r'.id = r.id := ho.precedes.id
  have hmem := Store.run?_mem hr
  have hunclaimed : ∀ c ∈ f.claims, c.subject ≠ (r'.id, kind) := by
    intro c hc hsub
    have hrun : r.id = c.run := hid.symm.trans (congrArg Prod.fst hsub).symm
    have hkind : c.phase = kind := congrArg Prod.snd hsub
    have hlt := (h.past c (List.mem_of_mem_filter hc)).beyond r hmem hrun
    rw [hkind, hq] at hlt
    exact lt_irrefl _ hlt
  have hunborn : ∀ c ∈ f.claims, c.doer ≠ (i, (f.agent i).claims) := by
    intro c hc hdoer
    have hm := mem_courseIn (List.mem_of_mem_filter hc) hdoer
    exact List.not_mem_nil ((h.tells i).unborn _ le_rfl ▸ hm)
  refine h.extend hm he ((h.tells i).hire r' kind) ?_ ?_ ?_ ?_
  · change ((f.claims ++ [_]).map Act.subject).Nodup
    rw [List.map_append]
    refine h.once.append (List.nodup_singleton _) fun s hs hs' => ?_
    obtain ⟨c, hc, rfl⟩ := List.mem_map.mp hs
    exact hunclaimed c hc (List.mem_singleton.mp hs')
  · change ((f.claims ++ [_]).map Act.doer).Nodup
    rw [List.map_append]
    refine h.single.append (List.nodup_singleton _) fun s hs hs' => ?_
    obtain ⟨c, hc, rfl⟩ := List.mem_map.mp hs
    exact hunborn c hc (List.mem_singleton.mp hs')
  · exact ⟨_, List.mem_append_right _ (List.mem_singleton_self _), rfl, rfl⟩
  · refine ⟨?_, fun x hx' hxid => ?_⟩
    · change Issued Run.stem f.ledger.supply r'.id
      exact hid ▸ h.ordered.issuedRuns r hmem
    · rcases Keyed.mem_replace.mp hx' with ⟨rfl, -⟩ | ⟨-, hne⟩
      · rw [hx]
        exact kind.rank_queued_lt
      · exact absurd hxid hne

/-- **A claim.** -/
theorem Sound.claim (h : Sound f) (hm : f.mode i ≠ .stopped) (x : Run) : Sound (f.claim i x) := by
  rcases Agent.claim_cases x (f.agent i) f.ledger with hc | ⟨kind, r, r', hr, ho, he, hc⟩
  · have hsame : f.claim i x = f := by
      rw [Fleet.claim, hc]
      dsimp only
      rw [List.drop_length, List.map_nil, List.append_nil]
      change { f with workers := Function.update f.workers i (f.workers i) } = f
      rw [Function.update_eq_self]
    exact hsame.symm ▸ h
  · rw [Fleet.claim, hc]
    dsimp only
    rw [List.drop_left]
    exact h.hire hm hr ho (Ledger.evolves_of_moves (Service.startPhase_moves he))

/-- **Every move keeps a fleet sound.** -/
theorem Move.sound (hm : Move permits f f') (h : Sound f) : Sound f' := by
  cases hm with
  | tick now => exact h.ledger (.single ⟨.tick now, rfl⟩)
  | request c _ => exact h.ledger (.single ⟨.request c, rfl⟩)
  | subscribe i _ => exact h.turn .following nofun
  | leave i _ => exact h.turn .waiting nofun
  | claim i x hf => exact h.claim (by rw [hf]; nofun) x
  | mark i hasSkipped hf =>
    exact h.revise (by rw [hf]; nofun) ((h.tells i).told (Agent.told_mark _ hasSkipped))
  | signal i run force hf =>
    exact h.revise (by rw [hf]; nofun) ((h.tells i).told (Agent.told_signal _ run force))
  | remove i j _ hj he =>
    exact h.revise (h.mode_ne_stopped hj) ((h.tells i).remove hj (Job.stage_of_hasEnded he))
  | stop i hf =>
    have hne : f.mode i ≠ .stopped := fun hs => by simp [hs] at hf
    exact (h.revise hne ((h.tells i).told (Agent.told_cancelAll _))).turn .draining nofun
  | quit i hf hj => exact h.turn .stopped fun _ => hj
  | job i hj hg =>
    obtain ⟨hn, hs⟩ := hg.same
    exact h.work hj hn hs (Ledger.evolves_of_moves hg.moves) (fun did hd => hd.goes hg)
      (unclaimed_of_goes hg)

theorem Reachable.sound (h : Reachable permits f) : Sound f := by
  obtain ⟨agents, hm⟩ := h
  induction hm with
  | refl => exact .idle agents
  | tail _ hm ih => exact hm.sound ih

/-- **One job, one phase**: whatever is done for a phase is done by one job, which does nothing else. -/
theorem Sound.doer_eq_iff (h : Sound f) {a b : Act ι} (ha : a ∈ f.trace) (hb : b ∈ f.trace) :
    b.doer = a.doer ↔ b.subject = a.subject := by
  obtain ⟨c, hc, hcd, hcs⟩ := h.origin a ha
  obtain ⟨d, hd, hdd, hds⟩ := h.origin b hb
  constructor
  · intro he
    have heq := List.inj_on_of_nodup_map h.single hd hc (hdd.trans (he.trans hcd.symm))
    exact hds.symm.trans ((congrArg _ heq).trans hcs)
  · intro he
    have heq := List.inj_on_of_nodup_map h.once hd hc (hds.trans (he.trans hcs.symm))
    exact hdd.symm.trans ((congrArg _ heq).trans hcd)

end Fleet

end Provision
