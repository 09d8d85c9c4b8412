import Provision.Proofs.Queue.Lockstep
import Provision.Proofs.Scheduler.World

/-!
# Schedulers in lockstep

A scheduler does the same in two worlds that answer alike.

* `World.Lockstep`: two worlds answer the calls of a scheduler alike. The second one may stop it when it
  asks for the plan of a run, and then refuses everything.
* `World.Lockstep.dispatch`: an event is dispatched in step.
* `World.Lockstep.seed`: so do seeds go, unless the second one has come to a stop.
-/

namespace Provision

open Effect (InStep Both)
open Queue (Paired Stops)

namespace Effect

variable {ε σ τ α : Type} {S : σ → τ → Prop} {D : τ → Prop} {s : σ} {t : τ}

/-- Two outcomes go together, or the second one was stopped on the way. -/
def Abreast (S : σ → τ → Prop) (D : τ → Prop) (x : Except ε Unit × σ) (y : Except ε Unit × τ) : Prop :=
  (y.1 = x.1 ∧ S x.2 y.2) ∨ D y.2

theorem InStep.abreast {x : Except ε Unit × σ} {y : Except ε Unit × τ}
    (h : InStep S D (fun _ _ => True) x y) : Abreast S D x y := by
  cases h with
  | both hb hs =>
    cases hb with
    | ok => exact .inl ⟨rfl, hs⟩
    | error e => exact .inl ⟨rfl, hs⟩
  | stopped hd => exact .inr hd

theorem Abreast.bind {x x' : ExceptT ε (StateM σ) Unit} {y y' : ExceptT ε (StateM τ) Unit}
    (h : Abreast S D (x s) (y t)) (hD : ∀ t, D t → D (y' t).2)
    (h' : ∀ s t, S s t → Abreast S D (x' s) (y' t)) :
    Abreast S D ((x >>= fun _ => x') s) ((y >>= fun _ => y') t) := by
  rcases hx : x s with ⟨res, s'⟩
  rcases hy : y t with ⟨res', t'⟩
  rw [hx, hy] at h
  rcases h with ⟨hr, hs⟩ | hd
  · obtain rfl : res' = res := hr
    rcases res' with e | u
    · rw [bind_error hx, bind_error hy]
      exact .inl ⟨rfl, hs⟩
    · rw [bind_ok hx, bind_ok hy]
      exact h' s' t' hs
  · rcases res' with e | u
    · rw [bind_error hy]
      exact .inr hd
    · rw [bind_ok hy]
      exact .inr (hD t' hd)

theorem InStep.abreast_bind {β β' : Type} {P : β → β' → Prop} {x : ExceptT ε (StateM σ) β}
    {y : ExceptT ε (StateM τ) β'} {f : β → ExceptT ε (StateM σ) Unit}
    {g : β' → ExceptT ε (StateM τ) Unit} (h : InStep S D P (x s) (y t))
    (hf : ∀ a b s' t', P a b → S s' t' → Abreast S D (f a s') (g b t')) :
    Abreast S D ((x >>= f) s) ((y >>= g) t) := by
  rcases hx : x s with ⟨res, s'⟩
  rcases hy : y t with ⟨res', t'⟩
  rw [hx, hy] at h
  cases h with
  | both hp hs =>
    cases hp with
    | ok hp =>
      rw [bind_ok hx, bind_ok hy]
      exact hf _ _ s' t' hp hs
    | error e =>
      rw [bind_error hx, bind_error hy]
      exact .inl ⟨rfl, hs⟩
  | stopped hd =>
    rw [bind_error hy]
    exact .inr hd

theorem InStep.abreast_attempt {x : ExceptT ε (StateM σ) Unit} {y : ExceptT ε (StateM τ) Unit}
    (h : InStep S D (fun _ _ => True) (x s) (y t)) :
    Abreast S D ((.ok (), (x s).2) : Except ε Unit × σ) (.ok (), (y t).2) :=
  h.abreast.imp_left fun hs => ⟨rfl, hs.2⟩

theorem snd_forM_of_kept {g : α → ExceptT ε (StateM τ) Unit} (hD : ∀ a t, D t → D (g a t).2)
    (as : List α) (hd : D t) : D (as.forM g t).2 := by
  induction as generalizing t with
  | nil => exact hd
  | cons a as ih =>
    obtain ⟨e, -, hb⟩ | ⟨u, -, hb⟩ := bind_cases (g a) (fun _ => as.forM g) t
    · exact (congrArg (fun s => D s.2) hb).mpr (hD a t hd)
    · exact (congrArg (fun s => D s.2) hb).mpr (ih (hD a t hd))

theorem Abreast.forM {f : α → ExceptT ε (StateM σ) Unit} {g : α → ExceptT ε (StateM τ) Unit}
    {as : List α} (hs : S s t) (hD : ∀ a t, D t → D (g a t).2)
    (hf : ∀ a ∈ as, ∀ s t, S s t → Abreast S D (f a s) (g a t)) :
    Abreast S D (as.forM f s) (as.forM g t) := by
  induction as generalizing s t with
  | nil => exact .inl ⟨rfl, hs⟩
  | cons a as ih =>
    refine Abreast.bind (x := f a) (y := g a) (hf a List.mem_cons_self s t hs)
      (fun t hd => snd_forM_of_kept hD as hd) fun s t hs => ?_
    exact ih hs fun x hx => hf x (List.mem_cons_of_mem a hx)

end Effect

open Effect (Abreast)

namespace World

variable {σ τ : Type} {b : World σ} {c : World τ} {S : σ → τ → Prop}
  {Stop : String → String → τ → Prop} {Place : String → String → Prop}
  {M : String → String → String → Prop} {L : String → Prop}

/-- Two worlds answer a scheduler alike. Workspaces are listed at a `Place`; the queue of a workspace in
an organization tracks runs of the kind `M`, and launches speculative runs of the kind `L`. -/
structure Lockstep (b : World σ) (c : World τ) (S : σ → τ → Prop) (Stop : String → String → τ → Prop)
    (Place : String → String → Prop) (M : String → String → String → Prop) (L : String → Prop) :
    Prop where
  queue (o v : String) : b.toBackend.Lockstep c.toBackend S (Stop v) v (M o v) L
  getRun {run : String} {s : σ} {t : τ} : S s t →
    InStep S (fun _ => False)
      (fun x y : Run => y = x ∧ x.id = run ∧ (x.speculative = true → L x.id))
      (b.getRun run s) (c.getRun run t)
  getWorkspace {id : String} {s : σ} {t : τ} : S s t →
    InStep S (fun _ => False) (fun w w' : Workspace => w' = w ∧ w.id = id)
      (b.getWorkspace id s) (c.getWorkspace id t)
  unlockWorkspace {v run : String} {s : σ} {t : τ} : S s t →
    InStep S (fun _ => False) (fun _ _ => True)
      (b.unlockWorkspace v (.run run) false s) (c.unlockWorkspace v (.run run) false t)
  listOrganizations {s : σ} {t : τ} : S s t →
    InStep S (fun _ => False) (fun os os' => os' = os) (b.listOrganizations s) (c.listOrganizations t)
  listWorkspaces {o : String} {s : σ} {t : τ} : S s t →
    InStep S (fun _ => False) (fun ws ws' => ws' = ws ∧ ∀ w ∈ ws, Place w.organization w.id)
      (b.listWorkspaces o s) (c.listWorkspaces o t)
  /-- The unfinished runs of a workspace. -/
  listRuns {v : String} {s : σ} {t : τ} : S s t →
    InStep S (fun _ => False) (fun rs rs' => rs' = rs ∧ ∀ r ∈ rs,
        (r.speculative = false → ∀ o, Place o v → M o v r.id) ∧ (r.speculative = true → L r.id))
      (b.listRuns { workspace := some v, statuses := some Scheduler.unfinished } s)
      (c.listRuns { workspace := some v, statuses := some Scheduler.unfinished } t)
  /-- A world that has stopped lists nothing. -/
  stopped {v run : String} {t : τ} : Stop v run t →
    (∀ f, ∃ e, c.listRuns f t = (.error e, t)) ∧ ∀ o, ∃ e, c.listWorkspaces o t = (.error e, t)

/-- Two rosters are the same, with queues that belong to their workspaces and track runs of a kind, and
the worlds around them go together. -/
structure Matched (S : σ → τ → Prop) (M : String → String → String → Prop) (p : Roster × σ)
    (p' : Roster × τ) : Prop where
  roster : p'.1 = p.1
  queues : ∀ o v q, p.1.queue? o v = some q → q.workspace.id = v ∧ ∀ run ∈ q.tracked, M o v run
  state : S p.2 p'.2

/-- A queue has come to a stop with its current run. -/
def Halts (Stop : String → String → τ → Prop) (M : String → String → String → Prop) (p : Roster × τ) :
    Prop :=
  ∃ o v q, p.1.queue? o v = some q ∧ Stops (Stop v) v (M o v) (q, p.2)

theorem Halts.stop {M : String → String → String → Prop} {p : Roster × τ} (h : Halts Stop M p) :
    ∃ v run, Stop v run p.2 := by
  obtain ⟨_, v, _, -, -, run, -, -, hs⟩ := h
  exact ⟨v, run, hs⟩

namespace Lockstep

/-- The steps of a scheduler in both worlds are in step. -/
abbrev Pair (S : σ → τ → Prop) (Stop : String → String → τ → Prop) (M : String → String → String → Prop)
    {α β : Type} (P : α → β → Prop) :
    Except Error α × Roster × σ → Except Error β × Roster × τ → Prop :=
  InStep (Matched S M) (Halts Stop M) P

/-! ## The work of a queue in a seed -/

section Queues

variable {o v : String} {p : Queue × σ} {p' : Queue × τ} (h : Lockstep b c S Stop Place M L)
  (hp : Paired S v (M o v) p p')

include h hp

theorem refresh {run : String} (hm : M o v run) :
    Backend.Lockstep.Pair S (Stop v) v (M o v) (fun _ _ => True) (b.refresh run p) (c.refresh run p') := by
  unfold World.refresh
  refine InStep.bind (Backend.Lockstep.pair_attempt hp (h.getRun hp.state)) fun r r' p₁ p₁' _ hb hp₁ => ?_
  cases hb with
  | @ok _ x hx =>
    obtain ⟨rfl, hid, hl⟩ := hx
    refine (h.queue o v).handle hp₁ fun y hy _ => ?_
    obtain rfl := Payload.run.inj hy
    exact ⟨fun _ => hid ▸ hm, hl⟩
  | error e =>
    refine InStep.ite .rfl (fun _ => (h.queue o v).forget hp₁ hm) fun _ => ?_
    exact Backend.Lockstep.pair_throw hp₁ e

/-- **A queue is fed in step.** -/
theorem feed {ws : Workspace} {runs : List Run} (hr : ∀ r ∈ runs,
      (r.speculative = false → M o v r.id) ∧ (r.speculative = true → L r.id)) :
    Backend.Lockstep.Pair S (Stop v) v (M o v) (fun _ _ => True) (b.feed ws runs p)
      (c.feed ws runs p') := by
  unfold World.feed
  refine InStep.bind ((h.queue o v).handle hp fun x hx _ => nomatch hx) fun _ _ p₁ p₁' _ _ hp₁ => ?_
  refine Backend.Lockstep.pair_self hp₁ ?_
  refine InStep.bind (InStep.forM (S := fun p p' => Paired S v (M o v) p p') hp₁ fun run hrun p p' hp =>
    h.refresh hp (hp₁.tracked run hrun)) fun _ _ p₂ p₂' _ _ hp₂ => ?_
  refine InStep.bind (InStep.forM hp₂ fun r hm p p' hp => ?_) fun _ _ p₃ p₃' _ _ hp₃ =>
    (h.queue o v).retry hp₃
  refine (h.queue o v).handle hp fun y hy _ => ?_
  obtain rfl := Payload.run.inj hy
  exact hr r ((List.mem_append.mp hm).elim List.mem_of_mem_filter List.mem_of_mem_filter)

end Queues

/-! ## Rosters -/

variable {α β : Type} {P : α → β → Prop} {p : Roster × σ} {p' : Roster × τ}
  (h : Lockstep b c S Stop Place M L) (hp : Matched S M p p')

include hp in
theorem roster_call {x : ExceptT Error (StateM σ) α} {y : ExceptT Error (StateM τ) β}
    (hx : InStep S (fun _ => False) P (x p.2) (y p'.2)) : Pair S Stop M P (call x p) (call y p') := by
  obtain ⟨hb, hs⟩ := hx.unstopped
  exact .both hb ⟨hp.roster, hp.queues, hs⟩

include hp in
theorem roster_attempt {x : ExceptT Error (StateM σ) α} {y : ExceptT Error (StateM τ) β}
    (hx : InStep S (fun _ => False) P (x p.2) (y p'.2)) :
    Pair S Stop M (Both P) (attempt (call x) p) (attempt (call y) p') := by
  obtain ⟨hb, hs⟩ := hx.unstopped
  exact .ok hb ⟨hp.roster, hp.queues, hs⟩

include hp in
theorem roster_pure : Pair S Stop M (fun _ _ => True) ((pure () : Step σ Unit) p)
    ((pure () : Step τ Unit) p') :=
  .ok trivial hp

include hp in
theorem roster_revise {f : Roster → Roster} (hf : ∀ o v q, (f p.1).queue? o v = some q →
      p.1.queue? o v = some q ∨ q.workspace.id = v ∧ q.tracked = []) :
    Pair S Stop M (fun _ _ => True) (revise f p) (revise f p') := by
  refine .ok trivial ⟨congrArg f hp.roster, fun o v q hq => ?_, hp.state⟩
  rcases hf o v q hq with hq | ⟨hid, hn⟩
  · exact hp.queues o v q hq
  · exact ⟨hid, fun run hr => by rw [hn] at hr; cases hr⟩

include hp in
theorem roster_ensure (o : String) :
    Pair S Stop M (fun _ _ => True) (revise (·.ensure o) p) (revise (·.ensure o) p') :=
  roster_revise hp fun o' v _ hq => .inl (Roster.queue?_ensure p.1 o o' v ▸ hq)

include hp in
theorem roster_put {o : String} (ho : p.1.Has o) (ws : Workspace) :
    Pair S Stop M (fun _ _ => True) (revise (·.revise o (·.put ws.id { workspace := ws })) p)
      (revise (·.revise o (·.put ws.id { workspace := ws })) p') := by
  refine roster_revise hp fun o' v _ hq => ?_
  rw [Roster.queue?_put ho] at hq
  split_ifs at hq with hv
  · obtain rfl := Option.some.inj hq
    exact .inr ⟨hv.2.symm, rfl⟩
  · exact .inl hq

include hp in
theorem roster_inQueue (o v : String) {x : Queue.Step σ Unit} {y : Queue.Step τ Unit}
    (hx : ∀ q, Paired S v (M o v) (q, p.2) (q, p'.2) →
      Backend.Lockstep.Pair S (Stop v) v (M o v) (fun _ _ => True) (x (q, p.2)) (y (q, p'.2))) :
    Pair S Stop M (fun _ _ => True) (inQueue o v x p) (inQueue o v y p') := by
  obtain ⟨r, s⟩ := p
  obtain ⟨r', t⟩ := p'
  obtain ⟨rfl, hqs, hs⟩ := hp
  unfold inQueue
  dsimp only
  rcases hq : r'.queue? o v with _ | q
  · exact .ok trivial ⟨rfl, hqs, hs⟩
  · have hpair := hx q ⟨rfl, (hqs o v q hq).1, (hqs o v q hq).2, hs⟩
    have hput := Roster.queue?_put (Roster.has_of_queue? hq) v
    dsimp only at hpair ⊢
    generalize x (q, s) = out at hpair ⊢
    generalize y (q, t) = out' at hpair ⊢
    cases hpair with
    | @both _ _ p₁ p₁' hb hp₁ =>
      refine .both hb ⟨by rw [hp₁.queue], fun o' v' q' hq' => ?_, hp₁.state⟩
      rw [hput] at hq'
      split_ifs at hq' with hov
      · obtain rfl := Option.some.inj hq'
        obtain ⟨rfl, rfl⟩ := hov
        exact ⟨hp₁.id, hp₁.tracked⟩
      · exact hqs o' v' q' hq'
    | @stopped _ _ p₁' hd =>
      exact .stopped ⟨o, v, p₁'.1, (hput p₁'.1 o v).trans (if_pos ⟨rfl, rfl⟩), hd⟩

include hp in
theorem roster_ensureQueue (ws : Workspace) :
    Pair S Stop M (fun _ _ => True) (ensureQueue ws p) (ensureQueue ws p') := by
  refine roster_revise hp fun o v q hq => ?_
  rw [← Roster.queue?_ensure p.1 ws.organization o v]
  dsimp only at hq
  split_ifs at hq with hs
  · exact .inl hq
  rw [Roster.queue?_put (Roster.has_ensure _ _)] at hq
  split_ifs at hq with hv
  · obtain rfl := Option.some.inj hq
    exact .inr ⟨hv.2.symm, rfl⟩
  · exact .inl hq

include hp in
theorem roster_roster {f : Roster → Step σ α} {g : Roster → Step τ β}
    (hf : Pair S Stop M P (f p.1 p) (g p.1 p')) :
    Pair S Stop M P ((roster >>= f) p) ((roster >>= g) p') := by
  have hb : (roster >>= f) p = f p.1 p := Effect.bind_ok rfl
  have hc : (roster >>= g) p' = g p'.1 p' := Effect.bind_ok rfl
  rw [hb, hc, hp.roster]
  exact hf

include h hp

/-! ## Events -/

theorem dispatchRun {e : Event} {x : Run} (he : e.payload = .run x)
    (hm : x.speculative = false → M x.organization x.workspace x.id)
    (hl : x.speculative = true → L x.id) :
    Pair S Stop M (fun _ _ => True) (b.dispatchRun e x p) (c.dispatchRun e x p') := by
  have hqueue : ∀ p p', Matched S M p p' → Pair S Stop M (fun _ _ => True)
      (inQueue x.organization x.workspace (Queue.handle b.toBackend e) p)
      (inQueue x.organization x.workspace (Queue.handle c.toBackend e) p') := fun p p' hp =>
    roster_inQueue hp _ _ fun q hpq => (h.queue _ _).handle hpq fun y hy _ => by
      obtain rfl := Payload.run.inj (he.symm.trans hy)
      exact ⟨hm, hl⟩
  unfold World.dispatchRun
  refine InStep.bind (roster_ensure hp x.organization) fun _ _ p₁ p₁' hen _ hp₁ => ?_
  refine roster_roster hp₁ (InStep.ite .rfl (fun _ => ?_) fun _ => hqueue p₁ p₁' hp₁)
  refine InStep.bind (roster_attempt hp₁ (h.getWorkspace hp₁.state)) fun r r' p₂ p₂' hget hb hp₂ => ?_
  cases hb with
  | @ok ws _ hw =>
    obtain ⟨rfl, -⟩ := hw
    have hhas : p₂.1.Has x.organization := by
      have h₂ : p₂'.1 = p₁'.1 := (congrArg (fun y => y.2.1) hget).symm
      have h₁ : p₁'.1 = p'.1.ensure x.organization := (congrArg (fun y => y.2.1) hen).symm
      rw [← hp₂.roster, h₂, h₁]
      exact Roster.has_ensure _ _
    exact InStep.bind (roster_put hp₂ hhas _) fun _ _ p₃ p₃' _ _ hp₃ => hqueue p₃ p₃' hp₃
  | error e =>
    refine InStep.ite .rfl (fun _ => roster_pure hp₂) fun _ => ?_
    exact .both (.error e) hp₂

/-- **An event is dispatched in step.** -/
theorem dispatch {e : Event} (he : ∀ x : Run, e.payload = .run x →
      (x.speculative = false → M x.organization x.workspace x.id) ∧
        (x.speculative = true → L x.id)) :
    Pair S Stop M (fun _ _ => True) (b.dispatch e p) (c.dispatch e p') := by
  have hfilter (name : String) : Pair S Stop M (fun _ _ => True)
      (revise (·.filter fun b => b.organization != name) p)
      (revise (·.filter fun b => b.organization != name) p') := by
    exact roster_revise hp fun o v q hq => .inl (Roster.queue?_of_filter (fun o => o != name) hq)
  have hdrop (id : String) : Pair S Stop M (fun _ _ => True) (revise (·.map (·.drop id)) p)
      (revise (·.map (·.drop id)) p') := by
    exact roster_revise hp fun o v q hq => .inl (Roster.queue?_of_drop hq)
  unfold World.dispatch
  rcases hp' : e.payload with org | ws | x | chunk | ⟨relation, id⟩
  · rcases e.type <;> first | exact roster_ensure hp org.name | exact roster_pure hp
  · have hqueue : Pair S Stop M (fun _ _ => True)
        ((do ensureQueue ws; inQueue ws.organization ws.id (Queue.handle b.toBackend e) :
          Step σ Unit) p)
        ((do ensureQueue ws; inQueue ws.organization ws.id (Queue.handle c.toBackend e) :
          Step τ Unit) p') :=
      InStep.bind (roster_ensureQueue hp ws) fun _ _ p₁ p₁' _ _ hp₁ =>
        roster_inQueue hp₁ _ _ fun q hpq => (h.queue _ _).handle hpq fun x hx _ => nomatch hp'.symm.trans hx
    rcases e.type <;> exact hqueue
  · obtain ⟨hm, hl⟩ := he x hp'
    rcases e.type <;> exact h.dispatchRun hp hp' hm hl
  · rcases e.type <;> exact roster_pure hp
  · rcases e.type <;> first | exact hfilter id | exact hdrop id | exact roster_pure hp

/-! ## Seeds -/

theorem releaseStaleLock (ws : Workspace) (active : Option Run) :
    Pair S Stop M (fun _ _ => True) (b.releaseStaleLock ws active p) (c.releaseStaleLock ws active p') := by
  unfold World.releaseStaleLock
  rcases ws.lock with _ | holder | name
  · exact roster_pure hp
  swap
  · exact roster_pure hp
  refine InStep.ite .rfl (fun _ => roster_pure hp) fun _ => ?_
  refine InStep.bind (roster_attempt hp (h.getRun hp.state)) fun r r' p₁ p₁' _ hb hp₁ => ?_
  have hrelease : Pair S Stop M (fun _ _ => True)
      ((do let _ ← attempt (call (b.unlockWorkspace ws.id (.run holder) false)) : Step σ Unit) p₁)
      ((do let _ ← attempt (call (c.unlockWorkspace ws.id (.run holder) false)) : Step τ Unit) p₁') :=
    InStep.bind (roster_attempt hp₁ (h.unlockWorkspace hp₁.state)) fun _ _ _ _ _ _ hp₂ => roster_pure hp₂
  cases hb with
  | ok hx =>
    obtain ⟨rfl, -⟩ := hx
    exact InStep.ite .rfl (fun _ => hrelease) fun _ => roster_pure hp₁
  | error e => exact InStep.ite .rfl (fun _ => hrelease) fun _ => roster_pure hp₁

omit h hp in
theorem halts_refused {x : ExceptT Error (StateM τ) β} {f : β → Step τ Unit} {p' : Roster × τ}
    (hd : Halts Stop M p') (hx : ∃ e, x p'.2 = (.error e, p'.2)) :
    Halts Stop M ((call x >>= f) p').2 := by
  obtain ⟨e, he⟩ := hx
  have hout : (call x >>= f) p' = (.error e, p') :=
    Effect.bind_error (Prod.ext (congrArg (·.1) he) (Prod.ext rfl (congrArg (·.2) he)))
  exact hout.symm ▸ hd

omit hp in
theorem halts_seedWorkspace (ws : Workspace) {p' : Roster × τ} (hd : Halts Stop M p') :
    Halts Stop M (c.seedWorkspace ws p').2 := by
  obtain ⟨_, _, hs⟩ := hd.stop
  exact halts_refused hd ((h.stopped hs).1 _)

omit hp in
theorem halts_seedOrganization (org : Organization) {p' : Roster × τ} (hd : Halts Stop M p') :
    Halts Stop M (c.seedOrganization org p').2 := by
  obtain ⟨_, _, hs⟩ := hd.stop
  exact halts_refused hd ((h.stopped hs).2 _)

/-- A workspace is seeded in step; the stop of its queue goes unnoticed there. -/
theorem seedWorkspace {ws : Workspace} (hws : Place ws.organization ws.id) :
    Abreast (Matched S M) (Halts Stop M) (b.seedWorkspace ws p) (c.seedWorkspace ws p') := by
  unfold World.seedWorkspace
  refine InStep.abreast_bind (roster_call hp (h.listRuns hp.state))
    fun _ runs p₁ p₁' hr hp₁ => ?_
  obtain ⟨rfl, hr⟩ := hr
  by_cases hcr : 1 < (runs.filter (·.isActive)).length
  · rw [if_pos hcr, if_pos hcr]
    exact .inl ⟨rfl, hp₁⟩
  rw [if_neg hcr, if_neg hcr]
  refine (h.releaseStaleLock hp₁ ws _).abreast_bind fun _ _ p₂ p₂' _ hp₂ => ?_
  refine InStep.abreast_bind (roster_ensureQueue hp₂ ws) fun _ _ p₃ p₃' _ hp₃ => ?_
  exact (roster_inQueue hp₃ ws.organization ws.id fun q hq => h.feed hq fun r hm =>
    ⟨fun hns => (hr r hm).1 hns _ hws, (hr r hm).2⟩).abreast_attempt

theorem seedOrganization (org : Organization) :
    Abreast (Matched S M) (Halts Stop M) (b.seedOrganization org p) (c.seedOrganization org p') := by
  unfold World.seedOrganization
  refine InStep.abreast_bind (roster_call hp (h.listWorkspaces hp.state))
    fun _ ws p₁ p₁' hw hp₁ => ?_
  obtain ⟨rfl, hw⟩ := hw
  refine InStep.abreast_bind (roster_revise hp₁ fun o v q hq => .inl ?_)
    fun _ _ p₂ p₂' _ hp₂ => ?_
  · exact Roster.queue?_ensure p₁.1 org.name o v ▸ Roster.queue?_of_keep hq
  · exact .forM hp₂ (fun w _ hd => h.halts_seedWorkspace w hd) fun w hm _ _ hp =>
      h.seedWorkspace hp (hw w hm)

/-- **A seed goes in step**, unless it is stopped on the way. -/
theorem seed : Abreast (Matched S M) (Halts Stop M) (b.seed p) (c.seed p') := by
  unfold World.seed
  refine InStep.abreast_bind (roster_call hp (h.listOrganizations hp.state))
    fun _ orgs p₁ p₁' ho hp₁ => ?_
  obtain rfl := ho
  refine InStep.abreast_bind (roster_revise hp₁ fun o v q hq => .inl ?_)
    fun _ _ p₂ p₂' _ hp₂ => ?_
  · exact Roster.queue?_of_filter (fun o => (orgs.map (·.name)).contains o) hq
  · exact .forM hp₂ (fun org _ hd => h.halts_seedOrganization org hd) fun org _ _ _ hp =>
      h.seedOrganization hp org

end Lockstep

end World

end Provision
