import Provision.Proofs.Queue.Tracking

/-!
# Queues in lockstep

A queue does the same over two backends that answer alike. What it does over one of them is known then
from what it does over the other.

* `Effect.InStep`: two outcomes go together, or the second one has come to a stop.
* `Backend.Lockstep`: two backends answer the calls of a queue alike. The second one may stop the queue
  when it asks for the plan of a run that it was just given the lock for.
* `Backend.Lockstep.handle`, `Backend.Lockstep.retry`, `Backend.Lockstep.forget`: the steps of the queue
  are in step then.
-/

namespace Provision

namespace Effect

variable {ε σ τ α β α' β' : Type} {S S' : σ → τ → Prop} {D D' : τ → Prop} {P : α → β → Prop}
  {P' : α' → β' → Prop} {s : σ} {t : τ}

/-- Two values that go together, or the same refusal. -/
inductive Both (P : α → β → Prop) : Except ε α → Except ε β → Prop
  | ok {a : α} {b : β} : P a b → Both P (.ok a) (.ok b)
  | error (e : ε) : Both P (.error e) (.error e)

/-- Two outcomes go together, or the second one has come to a stop. -/
inductive InStep (S : σ → τ → Prop) (D : τ → Prop) (P : α → β → Prop) :
    Except ε α × σ → Except ε β × τ → Prop
  | both {x : Except ε α} {y : Except ε β} {s : σ} {t : τ} :
      Both P x y → S s t → InStep S D P (x, s) (y, t)
  | stopped {out : Except ε α × σ} {e : ε} {t : τ} : D t → InStep S D P out (.error e, t)

theorem InStep.ok {a : α} {b : β} (hp : P a b) (hs : S s t) :
    InStep S D P ((.ok a, s) : Except ε α × σ) (.ok b, t) :=
  .both (.ok hp) hs

theorem InStep.bind {x : ExceptT ε (StateM σ) α} {y : ExceptT ε (StateM τ) β}
    {f : α → ExceptT ε (StateM σ) α'} {g : β → ExceptT ε (StateM τ) β'}
    (h : InStep S D P (x s) (y t))
    (hf : ∀ a b s' t', y t = (.ok b, t') → P a b → S s' t' → InStep S D P' (f a s') (g b t')) :
    InStep S D P' ((x >>= f) s) ((y >>= g) t) := by
  rcases hx : x s with ⟨res, s'⟩
  rcases hy : y t with ⟨res', t'⟩
  rw [hx, hy] at h
  cases h with
  | both hp hs =>
    cases hp with
    | ok hp =>
      rw [bind_ok hx, bind_ok hy]
      exact hf _ _ s' t' hy hp hs
    | error e =>
      rw [bind_error hx, bind_error hy]
      exact .both (.error e) hs
  | stopped hd =>
    rw [bind_error hy]
    exact .stopped hd

theorem InStep.forM {f : α → ExceptT ε (StateM σ) Unit} {g : α → ExceptT ε (StateM τ) Unit}
    {as : List α} (hs : S s t)
    (hf : ∀ a ∈ as, ∀ s t, S s t → InStep S D (fun _ _ => True) (f a s) (g a t)) :
    InStep S D (fun _ _ => True) (as.forM f s) (as.forM g t) := by
  induction as generalizing s t with
  | nil => exact .ok trivial hs
  | cons a as ih =>
    refine InStep.bind (x := f a) (y := g a) (hf a List.mem_cons_self s t hs) fun _ _ s' t' _ _ hs' => ?_
    exact ih hs' fun x hx => hf x (List.mem_cons_of_mem a hx)

theorem InStep.ite {c c' : Prop} [Decidable c] [Decidable c'] (hc : c' ↔ c)
    {x x' : ExceptT ε (StateM σ) α} {y y' : ExceptT ε (StateM τ) β}
    (hx : c → InStep S D P (x s) (y t)) (hy : ¬ c → InStep S D P (x' s) (y' t)) :
    InStep S D P ((if c then x else x') s) ((if c' then y else y') t) := by
  by_cases h : c
  · rw [if_pos h, if_pos (hc.mpr h)]
    exact hx h
  · rw [if_neg h, if_neg (hc.not.mpr h)]
    exact hy h

theorem InStep.imp {D' : τ → Prop} {P' : α → β → Prop} {x : Except ε α × σ} {y : Except ε β × τ}
    (h : InStep S D P x y) (hD : ∀ t, D t → D' t) (hP : ∀ a b, x.1 = .ok a → P a b → P' a b) :
    InStep S D' P' x y := by
  cases h with
  | both hb hs =>
    cases hb with
    | ok hp => exact .ok (hP _ _ rfl hp) hs
    | error e => exact .both (.error e) hs
  | stopped hd => exact .stopped (hD _ hd)

theorem InStep.of_eq {P : α → α → Prop} {x : Except ε α × σ} {y : Except ε α × τ} (h : y.1 = x.1)
    (hs : S x.2 y.2) (hP : ∀ a, x.1 = .ok a → P a a) : InStep S D P x y := by
  rcases x with ⟨e | a, s⟩ <;> obtain ⟨res, t⟩ := y <;> obtain rfl := h
  · exact .both (.error e) hs
  · exact .ok (hP a rfl) hs

theorem InStep.unstopped {x : Except ε α × σ} {y : Except ε β × τ}
    (h : InStep S (fun _ => False) P x y) : Both P x.1 y.1 ∧ S x.2 y.2 := by
  cases h with
  | both hp hs => exact ⟨hp, hs⟩
  | stopped hd => exact hd.elim

end Effect

open Effect (InStep Both)

namespace Queue

variable {σ τ : Type}

/-- Two queues are the same and track runs of a kind, and the worlds around them go together. -/
structure Paired (S : σ → τ → Prop) (v : String) (M : String → Prop) (p : Queue × σ) (p' : Queue × τ) :
    Prop where
  queue : p'.1 = p.1
  /-- The copy is one of the workspace. -/
  id : p.1.workspace.id = v
  tracked : ∀ run ∈ p.1.tracked, M run
  state : S p.2 p'.2

/-- The queue has come to a stop with its current run, which is of a kind. -/
def Stops (Stop : String → τ → Prop) (v : String) (M : String → Prop) (p : Queue × τ) : Prop :=
  p.1.workspace.id = v ∧ ∃ run, p.1.current = some run ∧ M run ∧ Stop run p.2

end Queue

namespace Backend

variable {σ τ : Type} {b : Backend σ} {c : Backend τ} {S : σ → τ → Prop}
  {Stop : String → τ → Prop} {v : String} {M L : String → Prop}

/-- Two backends answer the queue of a workspace alike, where it asks for runs of the kind `M` or
launches speculative runs of the kind `L`. The second one may stop it instead when it asks for the plan
of a run, which is pending and was just given the lock. -/
structure Lockstep (b : Backend σ) (c : Backend τ) (S : σ → τ → Prop) (Stop : String → τ → Prop)
    (v : String) (M L : String → Prop) : Prop where
  getRun {run : String} {s : σ} {t : τ} : M run → S s t →
    InStep S (fun _ => False) (fun x y : Run => y.status = x.status) (b.getRun run s) (c.getRun run t)
  lockWorkspace {run : String} {s : σ} {t : τ} : M run → S s t →
    InStep S (fun _ => False) (fun w w' : Workspace => w' = w ∧ w.id = v)
      (b.lockWorkspace v (.run run) s) (c.lockWorkspace v (.run run) t)
  /-- The plan of a run that was just given the lock. -/
  enqueuePlan {run : String} {s : σ} {t t₀ t₁ : τ} {x : Run} {w : Workspace} : M run →
    c.getRun run t₀ = (.ok x, t₁) → x.status = .pending →
    c.lockWorkspace v (.run run) t₁ = (.ok w, t) → S s t →
    InStep S (Stop run) (fun _ _ => True) (b.enqueuePlan run s) (c.enqueuePlan run t)
  /-- The plan of a speculative run. -/
  launch {run : String} {s : σ} {t : τ} : L run → S s t →
    InStep S (fun _ => False) (fun _ _ => True) (b.enqueuePlan run s) (c.enqueuePlan run t)
  unlockWorkspace {run : String} {s : σ} {t : τ} : M run → S s t →
    InStep S (fun _ => False) (fun w w' : Option Workspace => w' = w ∧ ∀ x ∈ w, x.id = v)
      (b.unlockWorkspace v (.run run) false s) (c.unlockWorkspace v (.run run) false t)
  setCurrentRun {run : String} {s : σ} {t : τ} : M run → S s t →
    InStep S (fun _ => False) (fun w w' : Workspace => w' = w ∧ w.id = v)
      (b.setCurrentRun v run s) (c.setCurrentRun v run t)

namespace Lockstep

open Queue (Paired Stops Step call attempt self see revise)

/-- The steps of a queue over both backends are in step. -/
abbrev Pair (S : σ → τ → Prop) (Stop : String → τ → Prop) (v : String) (M : String → Prop) {α β : Type}
    (P : α → β → Prop) : Except Error α × Queue × σ → Except Error β × Queue × τ → Prop :=
  InStep (Paired S v M) (Stops Stop v M) P

variable {α β : Type} {P : α → β → Prop} {D : τ → Prop} {p : Queue × σ} {p' : Queue × τ}
  (h : Lockstep b c S Stop v M L) (hp : Paired S v M p p') {run : String}

/-! ## Calls -/

include hp in
theorem pair_call {x : ExceptT Error (StateM σ) α} {y : ExceptT Error (StateM τ) β}
    (hx : InStep S D P (x p.2) (y p'.2)) (hD : ∀ t, D t → Stops Stop v M (p.1, t)) :
    Pair S Stop v M P (call x p) (call y p') := by
  obtain ⟨q, s⟩ := p
  obtain ⟨q', t⟩ := p'
  obtain ⟨rfl, hid, htr, hs⟩ := hp
  change InStep (Paired S v M) (Stops Stop v M) P ((x s).1, (q', (x s).2)) ((y t).1, (q', (y t).2))
  dsimp only at hx
  generalize x s = out at hx
  generalize y t = out' at hx
  cases hx with
  | both hb hs' => exact .both hb ⟨rfl, hid, htr, hs'⟩
  | stopped hd => exact .stopped (hD _ hd)

include hp in
theorem pair_attempt {x : ExceptT Error (StateM σ) α} {y : ExceptT Error (StateM τ) β}
    (hx : InStep S (fun _ => False) P (x p.2) (y p'.2)) :
    Pair S Stop v M (Both P) (attempt (call x) p) (attempt (call y) p') := by
  obtain ⟨hb, hs⟩ := hx.unstopped
  exact .ok hb ⟨hp.queue, hp.id, hp.tracked, hs⟩

include hp in
theorem pair_pure {a : α} {a' : β} (ha : P a a') :
    Pair S Stop v M P ((pure a : Step σ α) p) ((pure a' : Step τ β) p') :=
  .ok ha hp

include hp in
theorem pair_throw (e : Error) :
    Pair S Stop v M P ((throw e : Step σ α) p) ((throw e : Step τ β) p') :=
  .both (.error e) hp

include hp in
theorem pair_revise {f : Queue → Queue} (hid : (f p.1).workspace.id = v)
    (htr : ∀ run ∈ (f p.1).tracked, M run) :
    Pair S Stop v M (fun _ _ => True) (revise f p) (revise f p') :=
  .ok trivial ⟨congrArg f hp.queue, hid, htr, hp.state⟩

include hp in
theorem pair_see {w : Workspace} (hw : w.id = v) :
    Pair S Stop v M (fun _ _ => True) (see w p) (see w p') :=
  pair_revise hp hw hp.tracked

include hp in
theorem pair_self {f : Queue → Step σ α} {g : Queue → Step τ β}
    (hf : Pair S Stop v M P (f p.1 p) (g p.1 p')) :
    Pair S Stop v M P ((self >>= f) p) ((self >>= g) p') := by
  rw [Queue.bind_self, Queue.bind_self, hp.queue]
  exact hf

/-! ## Admission -/

include h hp

theorem launchLocked {t₀ t₁ : τ} {x : Run} {w : Workspace} (hm : M run) (hc : p.1.current = some run)
    (hget : c.getRun run t₀ = (.ok x, t₁)) (hx : x.status = .pending)
    (hl : c.lockWorkspace v (.run run) t₁ = (.ok w, p'.2)) :
    Pair S Stop v M (fun _ _ => True) (Queue.launch b run p) (Queue.launch c run p') := by
  unfold Queue.launch
  refine InStep.bind (pair_call hp (h.enqueuePlan hm hget hx hl hp.state) fun t ht =>
    ⟨hp.id, run, hc, hm, ht⟩) fun _ _ p₁ p₁' _ _ hp₁ => ?_
  refine pair_self hp₁ (InStep.ite .rfl (fun _ => pair_pure hp₁ trivial) fun _ => ?_)
  rw [hp₁.id]
  refine InStep.bind (pair_call hp₁ (h.setCurrentRun hm hp₁.state) fun _ ht => ht.elim)
    fun _ _ p₂ p₂' _ hw hp₂ => ?_
  obtain ⟨rfl, hid⟩ := hw
  exact pair_see hp₂ hid

theorem schedule (hm : M run) (hc : p.1.current = some run) :
    Pair S Stop v M (fun _ _ => True) (Queue.schedule b run p) (Queue.schedule c run p') := by
  unfold Queue.schedule
  refine InStep.bind (pair_call hp (h.getRun hm hp.state) fun _ ht => ht.elim)
    fun x y p₁ p₁' hy hst hp₁ => ?_
  have hget : c.getRun run p'.2 = (.ok y, p₁'.2) :=
    Prod.ext (congrArg (·.1) hy) (congrArg (·.2.2) hy)
  have hq₁ : p₁'.1 = p'.1 := (congrArg (·.2.1) hy).symm
  refine InStep.ite (by rw [hst]) (fun _ => pair_pure hp₁ trivial) fun hpend => ?_
  refine pair_self hp₁ (InStep.ite .rfl (fun _ => pair_pure hp₁ trivial) fun _ => ?_)
  rw [hp₁.id]
  refine InStep.bind (pair_attempt hp₁ (h.lockWorkspace hm hp₁.state)) fun r r' p₂ p₂' hr hb hp₂ => ?_
  have hlock : c.lockWorkspace v (.run run) p₁'.2 = (r', p₂'.2) :=
    Prod.ext (Except.ok.inj (congrArg (·.1) hr)) (congrArg (·.2.2) hr)
  have hq₂ : p₂'.1 = p₁'.1 := (congrArg (·.2.1) hr).symm
  cases hb with
  | ok hw =>
    obtain ⟨rfl, hid⟩ := hw
    refine InStep.bind (pair_see hp₂ hid) fun _ _ p₃ p₃' hsee _ hp₃ => ?_
    obtain rfl := congrArg (·.2) hsee
    refine h.launchLocked hp₃ hm ?_ hget (hst.trans (not_not.mp hpend)) hlock
    rw [← hp₃.queue]
    change p₂'.1.current = some run
    rw [hq₂, hq₁, hp.queue]
    exact hc
  | error e =>
    cases e with
    | workspaceAlreadyLocked => exact pair_pure hp₂ trivial
    | _ => exact pair_throw hp₂ _

theorem promote : Pair S Stop v M (fun _ _ => True) (Queue.promote b p) (Queue.promote c p') := by
  unfold Queue.promote
  refine pair_self hp ?_
  rcases hpen : p.1.pending with _ | ⟨next, rest⟩
  · exact pair_revise hp hp.id fun run hr => hp.tracked run (List.mem_append_right _ hr)
  · have htr : ∀ run ∈ next :: rest, M run := fun run hr =>
      hp.tracked run (List.mem_append_right _ (hpen ▸ hr))
    refine InStep.bind (pair_revise hp hp.id htr) fun _ _ p₁ p₁' hrev _ hp₁ => ?_
    obtain rfl := congrArg (·.2) hrev
    refine h.schedule hp₁ (htr next List.mem_cons_self) ?_
    rw [← hp₁.queue]
    rfl

theorem unlock (hm : M run) :
    Pair S Stop v M (fun _ _ => True) (Queue.unlock b run p) (Queue.unlock c run p') := by
  unfold Queue.unlock
  refine pair_self hp ?_
  rw [hp.id]
  refine InStep.bind (pair_attempt hp (h.unlockWorkspace hm hp.state)) fun r r' p₁ p₁' _ hb hp₁ => ?_
  cases hb with
  | @ok _ w hw =>
    obtain ⟨rfl, hid⟩ := hw
    rcases w with _ | w
    · exact pair_pure hp₁ trivial
    · exact pair_see hp₁ (hid w rfl)
  | error e => exact InStep.ite .rfl (fun _ => pair_pure hp₁ trivial) fun _ => pair_throw hp₁ e

theorem leave (hm : M run) : Pair S Stop v M (fun _ _ => True)
    ((do Queue.unlock b run; Queue.promote b : Step σ Unit) p)
    ((do Queue.unlock c run; Queue.promote c : Step τ Unit) p') :=
  InStep.bind (h.unlock hp hm) fun _ _ _ _ _ _ hp₁ => h.promote hp₁

theorem retry : Pair S Stop v M (fun _ _ => True) (Queue.retry b p) (Queue.retry c p') := by
  unfold Queue.retry
  refine pair_self hp ?_
  rcases hc : p.1.current with _ | current
  · exact pair_pure hp trivial
  · exact h.schedule hp (hp.tracked current (Queue.mem_tracked_of_current hc)) hc

theorem forget (hm : M run) :
    Pair S Stop v M (fun _ _ => True) (Queue.forget b run p) (Queue.forget c run p') := by
  unfold Queue.forget
  refine pair_self hp (InStep.ite .rfl (fun _ => h.leave hp hm) fun _ => ?_)
  refine pair_revise hp hp.id fun x hx => hp.tracked x ?_
  exact (List.mem_append.mp hx).elim (List.mem_append_left _) fun hx =>
    List.mem_append_right _ (List.mem_of_mem_filter hx)

/-! ## Events -/

theorem launchSpeculative (hl : L run) : Pair S Stop v M (fun _ _ => True)
    (Queue.launchSpeculative b run p) (Queue.launchSpeculative c run p') := by
  unfold Queue.launchSpeculative
  refine InStep.bind (pair_attempt hp (h.launch hl hp.state)) fun r r' p₁ p₁' _ hb hp₁ => ?_
  cases hb with
  | ok => exact pair_pure hp₁ trivial
  | error e =>
    cases e with
    | invalidTransition => exact pair_pure hp₁ trivial
    | _ => exact pair_throw hp₁ _

omit h in
theorem enlist {x : Run} (hm : M x.id) :
    Pair S Stop v M (fun _ _ => True) (Queue.enlist x p) (Queue.enlist x p') := by
  refine pair_revise hp ?_ fun run hr => ?_
  · split_ifs <;> exact hp.id
  · split_ifs at hr
    · refine hp.tracked run ?_
      exact (List.mem_append.mp hr).elim (List.mem_append_left _) fun hr =>
        List.mem_append_right _ (List.mem_of_mem_erase hr)
    · exact hp.tracked run hr
    · exact hp.tracked run hr
    · rw [Queue.tracked, ← List.append_assoc] at hr
      rcases List.mem_append.mp hr with hr | hr
      · exact hp.tracked run hr
      · exact List.mem_singleton.mp hr ▸ hm

theorem handleRun {x : Run} (hm : x.speculative = false → M x.id) (hl : x.speculative = true → L x.id) :
    Pair S Stop v M (fun _ _ => True) (Queue.handleRun b x p) (Queue.handleRun c x p') := by
  unfold Queue.handleRun
  refine InStep.ite .rfl (fun hs => ?_) fun hs => ?_
  · exact InStep.ite .rfl (fun _ => h.launchSpeculative hp (hl hs)) fun _ => pair_pure hp trivial
  have hm := hm (by simpa using hs)
  refine pair_self hp ?_
  rcases hc : p.1.current with _ | current
  · refine InStep.ite .rfl (fun _ => pair_pure hp trivial) fun _ => ?_
    refine InStep.bind (pair_revise hp hp.id fun run hr => ?_) fun _ _ p₁ p₁' hrev _ hp₁ => ?_
    · rcases List.mem_cons.mp hr with rfl | hr
      · exact hm
      · exact hp.tracked run (List.mem_append_right _ hr)
    · obtain rfl := congrArg (·.2) hrev
      refine h.schedule hp₁ hm ?_
      rw [← hp₁.queue]
      rfl
  · refine InStep.ite .rfl (fun hcur => ?_) fun _ => enlist hp hm
    exact InStep.ite .rfl (fun _ => h.leave hp hm) fun _ => pair_pure hp trivial

/-- **An event is handled in step.** -/
theorem handle {e : Event} (hm : ∀ x : Run, e.payload = .run x → x.workspace = v →
      (x.speculative = false → M x.id) ∧ (x.speculative = true → L x.id)) :
    Pair S Stop v M (fun _ _ => True) (Queue.handle b e p) (Queue.handle c e p') := by
  unfold Queue.handle
  refine pair_self hp ?_
  rcases he : e.payload with org | ws | x | chunk | ref
  · exact pair_pure hp trivial
  · refine InStep.ite .rfl (fun hw => ?_) fun _ => pair_pure hp trivial
    refine InStep.bind (pair_see hp (hw.trans hp.id)) fun _ _ p₁ p₁' _ _ hp₁ => ?_
    exact InStep.ite .rfl (fun _ => h.retry hp₁) fun _ => pair_pure hp₁ trivial
  · refine InStep.ite .rfl (fun hx => ?_) fun _ => pair_pure hp trivial
    obtain ⟨hm, hl⟩ := hm x he (hx.trans hp.id)
    exact h.handleRun hp hm hl
  · exact pair_pure hp trivial
  · exact pair_pure hp trivial

end Lockstep

end Backend

end Provision
