import Provision.Proofs.Queue.Twice
import Provision.Proofs.Scheduler.Feed

/-!
# Queues with nothing to do

* `Ledger.AtRest v`: no run of the workspace `v` could be admitted or launched, and its lock is not held
  by a run that is done or gone.
* `Queue.Idle`: nothing that the queue tracks could be admitted either.
* `Queue.feed_idle`: to feed an idle queue of a workspace at rest changes nothing that is stored,
  whatever is stored besides.
-/

namespace Provision

namespace Ledger

variable {l : Ledger} {v run : String}

/-- A run cannot be admitted to a workspace: it has begun, or somebody else holds the lock. -/
def Stalled (l : Ledger) (v run : String) : Prop :=
  ∀ r ∈ l.store.run? run, r.status = .pending → ∀ w ∈ l.store.workspace? v,
    ∃ holder ∈ w.lock, holder ≠ .run run

instance (l : Ledger) (v run : String) : Decidable (l.Stalled v run) :=
  inferInstanceAs (Decidable (∀ r ∈ l.store.run? run, r.status = .pending →
    ∀ w ∈ l.store.workspace? v, ∃ holder ∈ w.lock, holder ≠ .run run))

/-- There is nothing to do for a workspace. -/
structure AtRest (l : Ledger) (v : String) : Prop where
  /-- Its speculative runs have begun. -/
  launched : ∀ r ∈ l.store.runsOf v, r.speculative = true → r.status ≠ .pending
  stalled : ∀ r ∈ l.store.runsOf v, l.Stalled v r.id
  /-- A run that holds the lock is there and has not ended. -/
  lock : ∀ w ∈ l.store.workspaces, w.id = v → ∀ run, w.lock = some (.run run) →
    ∃ r, l.store.run? run = some r ∧ r.isDone = false

theorem AtRest.not_held (h : l.AtRest v) (hr : ∀ r, l.store.run? run = some r → r.isDone = true)
    {w : Workspace} (hw : l.store.workspace? v = some w) : w.lock ≠ some (.run run) := by
  intro hl
  obtain ⟨r, hrun, hd⟩ := h.lock w (Store.workspace?_mem hw) (Store.workspace?_id hw) run hl
  rw [hr r hrun] at hd
  cases hd

end Ledger

namespace Queue

open Effect
open Scheduler (feed refresh)

variable {v run : String} {l : Ledger} {q : Queue} {s : Queue × Ledger}

/-- Nothing that the queue of a workspace tracks can be admitted. -/
structure Idle (v : String) (l : Ledger) (q : Queue) : Prop where
  /-- The copy is one of the workspace. -/
  id : q.workspace.id = v
  stalled : ∀ run ∈ q.tracked, l.Stalled v run

/-- The queue is idle, and the ledger is as it was. -/
def Rests (v : String) (l : Ledger) (s : Queue × Ledger) : Prop :=
  s.2 = l ∧ s.1.Idle v l

theorem Idle.of_subset {q' : Queue} (h : q.Idle v l) (hw : q'.workspace.id = v)
    (ht : ∀ run ∈ q'.tracked, run ∈ q.tracked) : q'.Idle v l :=
  ⟨hw, fun run hr => h.stalled run (ht run hr)⟩

theorem mem_tracked_join {a : String} (h : run ∈ (q.join a).tracked) : run ∈ q.tracked ∨ run = a := by
  rw [join] at h
  rcases hc : q.current with _ | b
  · rw [hc] at h
    exact (List.mem_cons.mp h).symm.imp_left (List.mem_append_right _)
  · rw [hc] at h
    change run ∈ (some b).toList ++ (q.pending ++ [a]) at h
    rw [← List.append_assoc, ← hc] at h
    exact (List.mem_append.mp h).imp_right List.mem_singleton.mp

theorem Idle.rests (h : q.Idle v l) : Rests v l (q, l) :=
  ⟨rfl, h⟩

theorem rests_bind {α β : Type} {x : Step Ledger α} {f : α → Step Ledger β}
    (hx : Rests v l (x s).2) (hf : ∀ a q, q.Idle v l → Rests v l (f a (q, l)).2) :
    Rests v l ((x >>= f) s).2 := by
  obtain ⟨hl, hq⟩ := hx
  have hs : (x s).2 = ((x s).2.1, l) := Prod.ext rfl hl
  obtain ⟨e, -, hb⟩ | ⟨a, -, hb⟩ := bind_cases x f s
  · rw [hb, hs]
    exact hq.rests
  · rw [hb, hs]
    exact hf a _ hq

theorem rests_forM {α : Type} {f : α → Step Ledger Unit} {as : List α}
    (hf : ∀ a ∈ as, ∀ q, q.Idle v l → Rests v l (f a (q, l)).2) (hq : q.Idle v l) :
    Rests v l (as.forM f (q, l)).2 := by
  induction as generalizing q with
  | nil => exact hq.rests
  | cons a as ih =>
    refine rests_bind (x := f a) (hf a List.mem_cons_self q hq) fun _ q' hq' => ?_
    exact ih (fun x hx => hf x (List.mem_cons_of_mem a hx)) hq'

/-! ## Steps of an idle queue -/

theorem schedule_idle (hq : q.Idle v l) (hr : l.Stalled v run) :
    Rests v l (schedule Backend.services run (q, l)).2 := by
  have h := schedule_tried q l run
  generalize schedule Backend.services run (q, l) = out at h
  cases h with
  | gone | past | heldCopy | unhoused | held => exact hq.rests
  | admitted r w hrun hp _ hw hl =>
    obtain ⟨holder, hh, hne⟩ := hr r hrun hp w (hq.id ▸ hw)
    rcases hl with hl | hl
    · cases hh.symm.trans hl
    · exact absurd (Option.some.inj (hh.symm.trans hl)) hne

theorem promote_idle (hq : q.Idle v l) : Rests v l (promote Backend.services (q, l)).2 := by
  have hn : q.next.tracked = q.pending := by
    rw [tracked, next]
    rcases q.pending with _ | ⟨b, rest⟩ <;> rfl
  have hpen : ∀ run ∈ q.pending, run ∈ q.tracked := fun run hr => List.mem_append_right _ hr
  have hnext : q.next.Idle v l := hq.of_subset hq.id fun run hr => hpen run (hn ▸ hr)
  rw [promote_apply]
  rcases hp : q.pending.head? with _ | b
  · exact hnext.rests
  · exact schedule_idle hnext (hq.stalled b (hpen b (List.mem_of_mem_head? hp)))

theorem retire_idle (hrest : l.AtRest v) (hq : q.Idle v l)
    (hr : ∀ r, l.store.run? run = some r → r.isDone = true) :
    Rests v l (retire run (q, l)).2 := by
  obtain ⟨w, hw, hl, -⟩ | ⟨-, hu⟩ := unlock_apply q l run
  · exact absurd hl (hrest.not_held hr (hq.id ▸ hw))
  · rw [show retire run (q, l) = promote Backend.services (q, l) from bind_ok hu]
    exact promote_idle hq

theorem retry_idle (hq : q.Idle v l) : Rests v l (retry Backend.services (q, l)).2 := by
  rw [retry_apply]
  rcases hc : q.current with _ | a
  · exact hq.rests
  · exact schedule_idle hq (hq.stalled a (mem_tracked_of_current hc))

theorem forget_idle (hrest : l.AtRest v) (hq : q.Idle v l) (hr : l.store.run? run = none) :
    Rests v l (forget Backend.services run (q, l)).2 := by
  unfold forget
  rw [bind_ok (self_apply q l)]
  split_ifs
  · exact retire_idle hrest hq fun r h => by cases hr.symm.trans h
  · refine ⟨rfl, hq.of_subset hq.id fun run hm => ?_⟩
    exact (List.mem_append.mp hm).elim (List.mem_append_left _) fun hm =>
      List.mem_append_right _ (List.mem_of_mem_filter hm)

theorem handle_idle (hrest : l.AtRest v) (hq : q.Idle v l) {x : Run} (hx : x ∈ l.store.runs)
    (hd : x.isDone = true → l.store.run? x.id = some x) :
    Rests v l (handle Backend.services (Event.runStatus x) (q, l)).2 := by
  by_cases hxv : x.workspace = q.workspace.id
  swap
  · rw [handle_aside (e := Event.runStatus x) hxv]
    exact hq.rests
  rw [handle_run rfl hxv]
  have hxm : x ∈ l.store.runsOf v := Store.mem_runsOf.mpr ⟨hx, hxv.trans hq.id⟩
  have hst := hrest.stalled x hxm
  have hjoin : (q.join x.id).Idle v l := by
    refine ⟨q.join_workspace x.id ▸ hq.id, fun run hr => ?_⟩
    rcases mem_tracked_join hr with hr | rfl
    · exact hq.stalled run hr
    · exact hst
  by_cases hs : x.speculative = true
  · rw [handleRun_speculative hs, if_neg (hrest.launched x hxm hs)]
    exact hq.rests
  have hs : x.speculative = false := by simpa using hs
  rcases hc : q.current with _ | a
  · rw [handleRun_idle hs hc]
    split_ifs
    · exact hq.rests
    · exact schedule_idle hjoin hst
  by_cases ha : a = x.id
  · rw [handleRun_current hs (ha ▸ hc)]
    split_ifs with hdone
    · refine retire_idle hrest hq fun r hr => ?_
      obtain rfl := Option.some.inj ((hd hdone).symm.trans hr)
      exact hdone
    · exact hq.rests
  · rw [handleRun_behind hs hc ha]
    refine Idle.rests ?_
    split_ifs
    · refine hq.of_subset hq.id fun run hr => ?_
      exact (List.mem_append.mp hr).elim (List.mem_append_left _) fun hr =>
        List.mem_append_right _ (List.mem_of_mem_erase hr)
    · exact hq
    · exact hjoin

theorem refresh_idle (hrest : l.AtRest v) (hq : q.Idle v l) (run : String) :
    Rests v l (refresh run (q, l)).2 := by
  have hg := Service.getRun_apply run l
  unfold refresh
  rcases hr : l.store.run? run with _ | r
  · rw [hr] at hg
    rw [bind_ok (attempt_apply (call_apply hg q))]
    exact forget_idle hrest hq hr
  · rw [hr] at hg
    rw [bind_ok (attempt_apply (call_apply hg q))]
    exact handle_idle hrest hq (Store.run?_mem hr) fun _ => Store.run?_id hr ▸ hr

/-- **To feed an idle queue** of a workspace at rest changes nothing that is stored. -/
theorem feed_idle (hrest : l.AtRest v) (hq : q.Idle v l) (ws : Workspace) (hws : ws.id = v) :
    Rests v l (feed ws (l.store.openRunsOf v) (q, l)).2 := by
  have hh := handle_workspace (q := q)
    (e := { type := .workspaceUpdated, payload := .workspace ws, isLocal := true }) rfl
    (hws.trans hq.id.symm) l
  unfold feed
  rw [bind_ok hh, bind_ok (self_apply _ _)]
  have hq₁ : (q.seeing ws).Idle v l := hq.of_subset hws fun _ h => h
  refine rests_bind (rests_forM (fun run _ q hq => refresh_idle hrest hq run) hq₁) fun _ q hq => ?_
  refine rests_bind (rests_forM (fun r hr q hq => ?_) hq) fun _ q hq => retry_idle hq
  have hm : r ∈ l.store.openRunsOf v := (activeFirst_perm _).mem_iff.mp hr
  obtain ⟨hm, -, hd⟩ := Store.mem_openRunsOf.mp hm
  exact handle_idle hrest hq hm fun hd' => by simp [hd] at hd'

end Queue

end Provision
