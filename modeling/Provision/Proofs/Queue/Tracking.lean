import Provision.Proofs.Queue.Fits
import Provision.Queue.Recording

/-!
# What a queue tracks, whatever it is told

A queue may be told anything, and what it asks of the world may be answered by anything: every call may
be refused, and others may act between two calls of the queue.

* `Queue.Past`: the calls of a queue since it was new, each with the queue before and after it.
* `Queue.Turn`: how one call changes the runs of a queue, however far it got (`Queue.answer_turn`).
* **`Queue.Past.tracking`**: no run is tracked twice, none waits behind nobody, and each was first added
  by an event about it.
-/

namespace Provision

/-- The backend answers with the workspace it was asked for. -/
structure Backend.IsFaithful {σ : Type} (b : Backend σ) : Prop where
  lockWorkspace {id : String} {holder : Holder} {s s' : σ} {ws : Workspace} :
    b.lockWorkspace id holder s = (.ok ws, s') → ws.id = id
  unlockWorkspace {id : String} {requester : Holder} {force : Bool} {s s' : σ} {ws : Workspace} :
    b.unlockWorkspace id requester force s = (.ok (some ws), s') → ws.id = id
  setCurrentRun {id run : String} {s s' : σ} {ws : Workspace} :
    b.setCurrentRun id run s = (.ok ws, s') → ws.id = id

theorem Backend.services_isFaithful : Backend.services.IsFaithful where
  lockWorkspace {id holder l l' ws} h := by
    have h := (Service.lockWorkspace_apply id holder l).symm.trans h
    rcases hw : l.store.workspace? id with _ | w
    · rw [hw] at h
      cases h
    · rcases ha : w.acquire holder with e | w'
      · simp only [hw, ha] at h
        cases h
      · simp only [hw, ha] at h
        cases h
        rw [← Store.workspace?_id hw, Workspace.acquire_eq ha]
  unlockWorkspace {id requester force l l' ws} h := by
    have h := (Service.unlockWorkspace_apply id requester force l).symm.trans h
    rcases hw : l.store.workspace? id with _ | w
    · rw [hw] at h
      cases h
    · rcases ha : w.release requester force with e | w'
      · simp only [hw, ha] at h
        cases h
      · simp only [hw, ha] at h
        cases h
        rw [← Store.workspace?_id hw, Workspace.release_eq ha]
  setCurrentRun {id run l l' ws} h := by
    have h := (Service.setCurrentRun_apply id run l).symm.trans h
    rcases hw : l.store.workspace? id with _ | w
    · rw [hw] at h
      cases h
    · rw [hw] at h
      cases h
      obtain rfl := Store.workspace?_id hw
      rfl

namespace Service

variable {id : String} {holder : Holder} {l : Ledger} {w : Workspace}

theorem id_of_lockWorkspace (h : (lockWorkspace id holder l).1 = .ok w) : w.id = id :=
  have h : Backend.services.lockWorkspace id holder l = (.ok w, _) := Prod.ext h rfl
  Backend.services_isFaithful.lockWorkspace h

theorem id_of_unlockWorkspace {force : Bool}
    (h : (unlockWorkspace id holder force l).1 = .ok (some w)) : w.id = id :=
  have h : Backend.services.unlockWorkspace id holder force l = (.ok (some w), _) := Prod.ext h rfl
  Backend.services_isFaithful.unlockWorkspace h

theorem id_of_setCurrentRun {run : String} (h : (setCurrentRun id run l).1 = .ok w) : w.id = id :=
  have h : Backend.services.setCurrentRun id run l = (.ok w, _) := Prod.ext h rfl
  Backend.services_isFaithful.setCurrentRun h

end Service

namespace Queue

variable {σ α β : Type} {b : Backend σ} {s : Queue × σ} {q q' : Queue} {run : String}

/-! ## Steps that leave the runs alone -/

/-- The queue has these runs; and, if the backend answers with what it is asked for, belongs to this
workspace. -/
structure Has (b : Backend σ) (v : String) (current : Option String) (pending : List String)
    (q : Queue) : Prop where
  current : q.current = current
  pending : q.pending = pending
  id : b.IsFaithful → q.workspace.id = v

variable {v : String} {c : Option String} {ps : List String}

theorem bind_self (f : Queue → Step σ α) (s : Queue × σ) : (self >>= f) s = f s.1 s :=
  Effect.bind_ok rfl

theorem has_bind {x : Step σ α} {f : α → Step σ β} (hx : Has b v c ps (x s).2.1)
    (hf : ∀ a s', x s = (.ok a, s') → Has b v c ps s'.1 → Has b v c ps (f a s').2.1) :
    Has b v c ps ((x >>= f) s).2.1 := by
  obtain ⟨e, -, hb⟩ | ⟨a, ha, hb⟩ := Effect.bind_cases x f s
  · rw [hb]
    exact hx
  · rw [hb]
    exact hf a _ ha hx

theorem has_ite {p : Prop} [Decidable p] {x y : Step σ α} (hx : p → Has b v c ps (x s).2.1)
    (hy : ¬ p → Has b v c ps (y s).2.1) : Has b v c ps ((if p then x else y) s).2.1 := by
  split_ifs with hp
  · exact hx hp
  · exact hy hp

theorem Has.seeing (h : Has b v c ps q) {w : Workspace} (hw : b.IsFaithful → w.id = v) :
    Has b v c ps (q.seeing w) :=
  ⟨h.current, h.pending, hw⟩

theorem call_ok {x : ExceptT Error (StateM σ) α} {r : Except Error α} {s' : Queue × σ}
    (h : call x s = (r, s')) : x s.2 = (r, s'.2) := by
  have hr : (x s.2).1 = r := congrArg Prod.fst h
  have hs : (s.1, (x s.2).2) = s' := congrArg Prod.snd h
  rw [← hr, ← hs]
  rfl

theorem attempt_call_ok {x : ExceptT Error (StateM σ) α} {r : Except Error α} {s' : Queue × σ}
    (h : attempt (call x) s = (.ok r, s')) : x s.2 = (r, s'.2) := by
  have hr : (x s.2).1 = r := Except.ok.inj (congrArg Prod.fst h)
  have hs : (s.1, (x s.2).2) = s' := congrArg Prod.snd h
  rw [← hr, ← hs]
  rfl

theorem launch_has (h : Has b v c ps s.1) (run : String) : Has b v c ps (launch b run s).2.1 := by
  unfold launch
  refine has_bind h fun _ s₁ _ h₁ => ?_
  rw [bind_self]
  refine has_ite (fun _ => h₁) fun _ => ?_
  refine has_bind h₁ fun ws s₂ hws h₂ => h₂.seeing fun hb => ?_
  exact (hb.setCurrentRun (call_ok hws)).trans (h₁.id hb)

theorem schedule_has (h : Has b v c ps s.1) (run : String) :
    Has b v c ps (schedule b run s).2.1 := by
  unfold schedule
  refine has_bind h fun _ s₁ _ h₁ => ?_
  refine has_ite (fun _ => h₁) fun _ => ?_
  rw [bind_self]
  refine has_ite (fun _ => h₁) fun _ => ?_
  refine has_bind (x := attempt _) h₁ fun r s₂ hr h₂ => ?_
  split
  · next ws =>
    have hws : b.IsFaithful → ws.id = v := fun hb =>
      (hb.lockWorkspace (attempt_call_ok hr)).trans (h₁.id hb)
    exact has_bind (x := see ws) (h₂.seeing hws) fun _ s₃ _ h₃ => launch_has h₃ run
  · exact h₂
  · exact h₂

theorem unlock_has (h : Has b v c ps s.1) (run : String) : Has b v c ps (unlock b run s).2.1 := by
  unfold unlock
  rw [bind_self]
  refine has_bind (x := attempt _) h fun r s₁ hr h₁ => ?_
  split
  · next ws =>
    exact h₁.seeing fun hb => (hb.unlockWorkspace (attempt_call_ok hr)).trans (h.id hb)
  · exact h₁
  · exact has_ite (fun _ => h₁) fun _ => h₁

theorem launchSpeculative_has (h : Has b v c ps s.1) (run : String) :
    Has b v c ps (launchSpeculative b run s).2.1 := by
  unfold launchSpeculative
  refine has_bind (x := attempt _) h fun r s₁ _ h₁ => ?_
  split <;> exact h₁

theorem retry_has (h : Has b v c ps s.1) : Has b v c ps (retry b s).2.1 := by
  unfold retry
  rw [bind_self]
  rcases s.1.current with _ | current
  · exact h
  · exact schedule_has h current

/-- The next run is current even if the attempt to admit it is refused. -/
theorem promote_has (h : Has b v c ps s.1) :
    Has b v ps.head? ps.tail (promote b s).2.1 := by
  unfold promote
  rw [bind_self, h.pending]
  rcases ps with _ | ⟨next, rest⟩
  · exact ⟨rfl, h.pending, h.id⟩
  · exact has_bind ⟨rfl, rfl, h.id⟩ fun _ s₁ _ h₁ => schedule_has h₁ next

/-- **The current run goes**, unless it could not give back the lock. -/
theorem retire_has (h : Has b v c ps s.1) (run : String) :
    Has b v c ps ((unlock b run >>= fun _ => promote b) s).2.1 ∨
      Has b v ps.head? ps.tail ((unlock b run >>= fun _ => promote b) s).2.1 := by
  have hu := unlock_has h run
  obtain ⟨e, -, hb⟩ | ⟨_, -, hb⟩ := Effect.bind_cases (unlock b run) (fun _ => promote b) s
  · exact .inl (by rwa [hb])
  · exact .inr (by rw [hb]; exact promote_has hu)

/-! ## One call -/

/-- What a queue is told. -/
inductive Prompt
  | event (e : Event)
  | retry
  | forget (run : String)

/-- What the queue does about it. -/
def answer (b : Backend σ) : Prompt → Step σ Unit
  | .event e => handle b e
  | .retry => retry b
  | .forget run => forget b run

/-- The queue is told of an unfinished run of its workspace that is not speculative. -/
def Admits (q : Queue) (p : Prompt) (x : Run) : Prop :=
  ∃ e, p = .event e ∧ e.payload = .run x ∧ x.workspace = q.workspace.id ∧ x.speculative = false ∧
    x.isDone = false

/-- The queue is told that a run does not exist any more, or that one of its workspace is done. -/
def Dismisses (q : Queue) (p : Prompt) (run : String) : Prop :=
  p = .forget run ∨ ∃ e x, p = .event e ∧ e.payload = .run x ∧ x.workspace = q.workspace.id ∧
    x.speculative = false ∧ x.isDone = true ∧ x.id = run

/-- How a queue changes when it is told something: not at all, a run that waits leaves it, the next one
becomes current, or one is added behind the others. -/
inductive Turn (b : Backend σ) (q : Queue) (p : Prompt) : Queue → Prop
  | stayed {q' : Queue} : Has b q.workspace.id q.current q.pending q' → Turn b q p q'
  | dropped {q' : Queue} (run : String) : q.Dismisses p run →
      Has b q.workspace.id q.current (q.pending.erase run) q' → Turn b q p q'
  | advanced {q' : Queue} (run : String) : q.Dismisses p run → q.current = some run →
      Has b q.workspace.id q.next.current q.next.pending q' → Turn b q p q'
  | added {q' : Queue} (x : Run) : q.Admits p x → x.id ∉ q.tracked →
      Has b q.workspace.id (q.join x.id).current (q.join x.id).pending q' → Turn b q p q'

theorem has_self (b : Backend σ) (q : Queue) :
    Has b q.workspace.id q.current q.pending q :=
  ⟨rfl, rfl, fun _ => rfl⟩

theorem turn_retire (b : Backend σ) (s : Queue × σ) (p : Prompt) {run : String}
    (hp : s.1.Dismisses p run) (hc : s.1.current = some run) :
    Turn b s.1 p ((unlock b run >>= fun _ => promote b) s).2.1 := by
  rcases retire_has (has_self b s.1) run with h | h
  · exact .stayed h
  · exact .advanced run hp hc h

section Event

variable {e : Event} {x : Run} (he : e.payload = .run x) (hx : x.workspace = s.1.workspace.id)

include he hx

theorem enlist_turn (b : Backend σ) {current : String} (hs : x.speculative = false)
    (hc : s.1.current = some current) (hne : current ≠ x.id) :
    Turn b s.1 (.event e) (enlist x s).2.1 := by
  change Turn b s.1 _ (if s.1.pending.contains x.id then _ else _)
  have hmem : s.1.pending.contains x.id = true ↔ x.id ∈ s.1.pending := List.contains_iff_mem
  split_ifs with hin hd hd
  · exact .dropped x.id (.inr ⟨e, x, rfl, he, hx, hs, hd, rfl⟩) ⟨rfl, rfl, fun _ => rfl⟩
  · exact .stayed (has_self b s.1)
  · exact .stayed (has_self b s.1)
  · refine .added x ⟨e, rfl, he, hx, hs, by simpa using hd⟩ ?_ ?_
    · rw [tracked_eq_cons hc, List.mem_cons, not_or]
      exact ⟨fun h => hne h.symm, fun h => hin (hmem.mpr h)⟩
    · exact ⟨hc.trans (join_current hc x.id).symm, by rw [join, hc], fun _ => rfl⟩

theorem handleRun_turn (b : Backend σ) (hh : s.1.current = none → s.1.pending = []) :
    Turn b s.1 (.event e) (handleRun b x s).2.1 := by
  have hself := has_self b s.1
  unfold handleRun
  by_cases hs : x.speculative = true
  · rw [if_pos hs]
    exact .stayed (has_ite (fun _ => launchSpeculative_has hself x.id) fun _ => hself)
  rw [if_neg hs, bind_self]
  have hs : x.speculative = false := by simpa using hs
  rcases hc : s.1.current with _ | current
  · dsimp only
    split_ifs with hd
    · exact .stayed hself
    · -- The run is tracked before the attempt to admit it, which may be refused.
      refine .added x ⟨e, rfl, he, hx, hs, by simpa using hd⟩ (by simp [tracked, hc, hh hc]) ?_
      refine has_bind ?_ fun _ s₁ _ h₁ => schedule_has h₁ x.id
      rw [join, hc]
      exact ⟨rfl, rfl, fun _ => rfl⟩
  · dsimp only
    split_ifs with ha hd
    · exact turn_retire b s _ (.inr ⟨e, x, rfl, he, hx, hs, hd, rfl⟩) (ha ▸ hc)
    · exact .stayed hself
    · exact enlist_turn he hx b hs hc ha

end Event

/-- **How one call changes a queue**, whatever is refused on the way. -/
theorem answer_turn (b : Backend σ) (p : Prompt) (s : Queue × σ)
    (hh : s.1.current = none → s.1.pending = []) (hn : s.1.tracked.Nodup) :
    Turn b s.1 p (answer b p s).2.1 := by
  have hself := has_self b s.1
  cases p with
  | retry => exact .stayed (retry_has hself)
  | forget run =>
    change Turn b s.1 _ (forget b run s).2.1
    unfold forget
    rw [bind_self]
    split_ifs with hc
    · exact turn_retire b s _ (.inl rfl) hc
    · have hp : s.1.pending.Nodup := hn.sublist (List.sublist_append_right _ _)
      refine .dropped run (.inl rfl) ⟨rfl, ?_, fun _ => rfl⟩
      exact (hp.erase_eq_filter run).symm
  | event e =>
    change Turn b s.1 _ (handle b e s).2.1
    unfold handle
    rw [bind_self]
    rcases e with ⟨type, payload, isLocal⟩
    cases payload with
    | workspace ws =>
      refine .stayed (has_ite (fun hws => ?_) fun _ => hself)
      refine has_bind (x := see ws) (hself.seeing fun _ => hws) fun _ s₁ _ h₁ => ?_
      exact has_ite (fun _ => retry_has h₁) fun _ => h₁
    | run x =>
      dsimp only
      split_ifs with hx
      · exact handleRun_turn rfl hx b hh
      · exact .stayed hself
    | organization | chunk | deleted => exact .stayed hself

/-! ## What every call keeps -/

variable {p : Prompt}

theorem Turn.headed (h : Turn b q p q') (hh : q.current = none → q.pending = [])
    (hc : q'.current = none) : q'.pending = [] := by
  cases h with
  | stayed h =>
    rw [h.pending]
    exact hh (h.current ▸ hc)
  | dropped run _ h =>
    rw [h.pending, hh (h.current ▸ hc)]
    rfl
  | advanced _ _ _ h =>
    rw [h.current, next, List.head?_eq_none_iff] at hc
    rw [h.pending, next, hc, List.tail_nil]
  | added x _ _ h =>
    rw [h.current, join] at hc
    split at hc
    · cases hc
    · next hq => cases hq.symm.trans hc

/-- A queue tracks nothing but what it tracked, or the run it was told of behind all others. -/
theorem Turn.tracked (h : Turn b q p q') (hh : q.current = none → q.pending = []) :
    q'.tracked.Sublist q.tracked ∨
      ∃ x, q.Admits p x ∧ x.id ∉ q.tracked ∧ q'.tracked = q.tracked ++ [x.id] := by
  cases h with
  | stayed h =>
    rw [Queue.tracked, Queue.tracked, h.current, h.pending]
    exact .inl (.refl _)
  | dropped run _ h =>
    rw [Queue.tracked, Queue.tracked, h.current, h.pending]
    exact .inl (List.erase_sublist.append_left _)
  | advanced _ _ hc h =>
    rw [Queue.tracked, h.current, h.pending, tracked_next hc]
    exact .inl (List.sublist_cons_self _ _)
  | added x hx hn h =>
    refine .inr ⟨x, hx, hn, ?_⟩
    rw [Queue.tracked, h.current, h.pending, join]
    rcases hc : q.current with _ | a
    · simp [Queue.tracked, hc, hh hc]
    · simp [Queue.tracked, hc]

theorem Turn.nodup (h : Turn b q p q') (hh : q.current = none → q.pending = [])
    (hn : q.tracked.Nodup) : q'.tracked.Nodup := by
  rcases h.tracked hh with hs | ⟨x, -, hx, ht⟩
  · exact hn.sublist hs
  · rw [ht]
    exact List.nodup_append.mpr ⟨hn, List.nodup_singleton _, fun a ha b hb hab =>
      hx (List.mem_singleton.mp hb ▸ hab ▸ ha)⟩

theorem Turn.id (h : Turn b q p q') (hb : b.IsFaithful) : q'.workspace.id = q.workspace.id := by
  cases h with
  | stayed h | dropped _ _ h | advanced _ _ _ h | added _ _ _ h => exact h.id hb

/-! ## All calls -/

/-- A call of a queue. -/
structure Call where
  before : Queue
  prompt : Prompt
  after : Queue

/-- The calls of the queue of a workspace since it was new, and the queue after them. Each call may
find the world in any state. -/
inductive Past (b : Backend σ) (ws : Workspace) : List Call → Queue → Prop
  | new : Past b ws [] { workspace := ws }
  | answer {log : List Call} {q : Queue} (p : Prompt) (s : σ) : Past b ws log q →
      Past b ws (log ++ [⟨q, p, (answer b p (q, s)).2.1⟩]) (answer b p (q, s)).2.1

namespace Past

variable {ws : Workspace} {log : List Call}

theorem headed_nodup (h : Past b ws log q) :
    (q.current = none → q.pending = []) ∧ q.tracked.Nodup := by
  induction h with
  | new => exact ⟨fun _ => rfl, List.nodup_nil⟩
  | answer p s _ ih =>
    have ht := answer_turn b p (_, s) ih.1 ih.2
    exact ⟨ht.headed ih.1, ht.nodup ih.1 ih.2⟩

theorem headed (h : Past b ws log q) : q.current = none → q.pending = [] :=
  h.headed_nodup.1

theorem nodup (h : Past b ws log q) : q.tracked.Nodup :=
  h.headed_nodup.2

/-- **How one call changes the queue.** -/
theorem turn (h : Past b ws log q) (p : Prompt) (s : σ) :
    Turn b q p (Queue.answer b p (q, s)).2.1 :=
  answer_turn b p (q, s) h.headed h.nodup

theorem id (h : Past b ws log q) (hb : b.IsFaithful) : q.workspace.id = ws.id := by
  induction h with
  | new => rfl
  | answer p s h ih => exact ((h.turn p s).id hb).trans ih

theorem exists_call (h : Past b ws log q) (hr : run ∈ q.tracked) :
    ∃ c ∈ log, run ∈ c.after.tracked := by
  cases h with
  | new => cases hr
  | answer p s h => exact ⟨_, List.mem_append_right _ List.mem_cons_self, hr⟩

/-- The first call after which a run is tracked is one that was about it. -/
theorem first (h : Past b ws log q) (hr : ∃ c ∈ log, run ∈ c.after.tracked) :
    ∃ before c after x, log = before ++ c :: after ∧ (∀ d ∈ before, run ∉ d.after.tracked) ∧
      run ∉ c.before.tracked ∧ run ∈ c.after.tracked ∧ c.before.Admits c.prompt x ∧ x.id = run ∧
      (b.IsFaithful → x.workspace = ws.id) := by
  induction h with
  | new =>
    obtain ⟨c, hc, -⟩ := hr
    cases hc
  | @answer log q p s h ih =>
    by_cases hold : ∃ c ∈ log, run ∈ c.after.tracked
    · obtain ⟨before, c, after, x, rfl, hx⟩ := ih hold
      exact ⟨before, c, after ++ [_], x, List.append_assoc .., hx⟩
    -- It was not tracked before this call, so the call added it.
    have hq : run ∉ q.tracked := fun hm => hold (h.exists_call hm)
    obtain ⟨c, hc, hrun⟩ := hr
    rcases List.mem_append.mp hc with hc | hc
    · exact absurd ⟨c, hc, hrun⟩ hold
    obtain rfl := List.mem_singleton.mp hc
    rcases (h.turn p s).tracked h.headed with hs | ⟨x, hx, -, ht⟩
    · exact absurd (hs.subset hrun) hq
    refine ⟨log, _, [], x, rfl, fun d hd hm => hold ⟨d, hd, hm⟩, hq, hrun, hx, ?_, fun hb => ?_⟩
    · change run ∈ ((Queue.answer b p (q, s)).2.1).tracked at hrun
      rw [ht] at hrun
      rcases List.mem_append.mp hrun with hm | hm
      · exact absurd hm hq
      · exact (List.mem_singleton.mp hm).symm
    · obtain ⟨e, -, -, hw, -⟩ := hx
      exact hw.trans (h.id hb)

/-- **What a queue tracks**: no run twice, none behind nobody, and only what was first added by an event
of an unfinished run of its workspace that is not speculative. The workspace is the one that the queue
had then, and the one it was made for if the backend answers with what it is asked for. -/
theorem tracking (h : Past b ws log q) :
    q.tracked.Nodup ∧ (∀ run ∈ q.pending, q.current ≠ some run) ∧
      (q.current = none → q.pending = []) ∧
      ∀ run ∈ q.tracked, ∃ before c after x, log = before ++ c :: after ∧
        (∀ d ∈ before, run ∉ d.after.tracked) ∧ run ∉ c.before.tracked ∧
        run ∈ c.after.tracked ∧ c.before.Admits c.prompt x ∧ x.id = run ∧
        (b.IsFaithful → x.workspace = ws.id) := by
  refine ⟨h.nodup, fun run hp hc => ?_, h.headed, fun run hr => h.first (h.exists_call hr)⟩
  have hn := h.nodup
  rw [tracked_eq_cons hc] at hn
  exact (List.nodup_cons.mp hn).1 hp

/-- Two runs, of which the first is admitted and ends; the attempt to admit the second one is refused,
since it is not stored. -/
theorem tracking_refused : ∃ ws log q, Past Backend.services ws log q ∧ log.length = 3 ∧
    q.current = some "run-2" ∧ q.tracked.Nodup ∧
    ∃ c ∈ log, ∃ x, "run-2" ∉ c.before.tracked ∧ c.before.Admits c.prompt x ∧ x.id = "run-2" ∧
      x.workspace = ws.id := by
  let ws : Workspace := ⟨"ws-1", "prod", "acme", false, ⟨0, 0⟩, none, none⟩
  let x : Run := { Run.new 1 { workspace := "ws-1" } ⟨0, 0⟩ with id := "run-1" }
  let y : Run := { x with id := "run-2" }
  have h₀ : Past Backend.services ws [] _ := .new
  have h₁ := (h₀.answer (.event (.runStatus x)) {}).answer (.event (.runStatus y)) {}
  have h := h₁.answer (.event (.runStatus { x with status := .canceled })) {}
  obtain ⟨hn, -, -, hfirst⟩ := h.tracking
  obtain ⟨before, c, after, z, hlog, -, hnot, -, hz, hid, hws⟩ :=
    hfirst "run-2" (by decide +kernel)
  exact ⟨ws, _, _, h, rfl, by decide +kernel, hn, c, hlog ▸ by simp, z, hnot, hz, hid,
    hws Backend.services_isFaithful⟩

end Past

end Queue

end Provision
