import Provision.Proofs.Queue.Alike
import Provision.Proofs.Queue.Twice
import Provision.Proofs.Scheduler.Calls

/-!
# Speculative runs pass by

A speculative run has its plan queued as soon as it is heard of. The queue takes no notice of it, and
neither do the other runs.

* `Queue.attend`: a queue handles a sequence of events, whether they are refused or not.
* `Queue.Overlooks`: one queue handled all events and another one none of those of speculative runs. They
  are the same, and what is stored differs in speculative runs and times only. Every event keeps this.
* **`Queue.attend_bypass`**: so it is after any sequence of events.
-/

namespace Provision

open Effect (InStep)
open Entered (statuses)

/-- The event tells of a speculative run. -/
def Event.isSpeculative (e : Event) : Bool :=
  match e.payload with
  | .run x => x.speculative
  | _ => false

theorem Event.isSpeculative_of_run {e : Event} {x : Run} (he : e.payload = .run x) :
    e.isSpeculative = x.speculative := by
  rw [isSpeculative, he]

theorem Event.exists_run {e : Event} (h : e.isSpeculative = true) :
    ∃ x : Run, e.payload = .run x ∧ x.speculative = true := by
  unfold isSpeculative at h
  split at h
  · next x hx => exact ⟨x, hx, h⟩
  · cases h

namespace Ledger

variable {l l' : Ledger} {run : String} {e : Event} {x : Run}

/-- The run is stored, as a speculative one. -/
def Speculative (l : Ledger) (run : String) : Prop :=
  (l.store.run? run).map Run.speculative = some true

instance (l : Ledger) (run : String) : Decidable (l.Speculative run) :=
  inferInstanceAs (Decidable ((l.store.run? run).map Run.speculative = some true))

theorem Frame.speculative_iff (h : l.Frame l') : l'.Speculative run ↔ l.Speculative run := by
  rw [Speculative, Speculative, h.speculative]

/-- What the event tells of a run has the flag of the run that is stored. -/
def Flags (l : Ledger) (e : Event) : Prop :=
  ∀ x r : Run, e.payload = .run x → l.store.run? x.id = some r → x.speculative = r.speculative

theorem Flags.not_speculative (h : l.Flags e) (he : e.payload = .run x) (hx : x.speculative = false) :
    ¬ l.Speculative x.id := by
  intro hs
  obtain ⟨r, hr, hrs⟩ := Option.map_eq_some_iff.mp hs
  exact absurd (hrs.symm.trans ((h x r he hr).symm.trans hx)) (by simp)

theorem Flags.speculative (h : l.Flags e) (he : e.payload = .run x) (hx : x.speculative = true)
    (hr : (l.store.run? x.id).isSome) : l.Speculative x.id := by
  obtain ⟨r, hr⟩ := Option.isSome_iff_exists.mp hr
  rw [Speculative, hr, Option.map_some, ← h x r he hr, hx]

end Ledger

namespace Queue

variable {q : Queue} {l : Ledger} {t t' : Queue × Ledger} {v : String} {e : Event}

/-- The queue and the ledger after an event is handled at a reading of the clock. -/
def attendOne (t : Queue × Ledger) (now : Instant) (e : Event) : Queue × Ledger :=
  (handle Backend.services e (t.1, { t.2 with clock := now })).2

/-- The queue and the ledger after events are handled one after the other, each at a reading of the clock.
A refusal does not stop this. -/
def attend (t : Queue × Ledger) : List (Instant × Event) → Queue × Ledger
  | [] => t
  | (now, e) :: es => attend (attendOne t now e) es

theorem attendOne_frame (t : Queue × Ledger) (now : Instant) (e : Event) :
    t.2.Frame (attendOne t now e).2 :=
  (Ledger.Frame.tick t.2 now).trans
    (.of_moves (Scheduler.handle_moves e (t.1, { t.2 with clock := now })))

theorem handle_speculative {x : Run} (he : e.payload = .run x) (hx : x.speculative = true) (q : Queue)
    (l : Ledger) : (handle Backend.services e (q, l)).2 = (q, l) ∨
      (handle Backend.services e (q, l)).2 = (q, (Service.enqueuePlan x.id l).2) := by
  by_cases hc : x.workspace = q.workspace.id
  · rw [handle_run he hc, handleRun_speculative hx]
    split_ifs
    · exact .inr (launchSpeculative_snd x.id q l)
    · exact .inl rfl
  · refine .inl (congrArg Prod.snd (handle_aside (fun h => hc ?_) l))
    rw [Event.Concerns, he] at h
    exact h

/-- Since the ledger was `l`, one queue handled events and another one those of them that do not tell of
speculative runs. -/
structure Overlooks (l : Ledger) (v : String) (t t' : Queue × Ledger) : Prop where
  paired : Paired (Ledger.Agrees (fun _ => True) fun run => ¬ l.Speculative run) v
    (fun run => ¬ l.Speculative run) t t'
  frame : l.Frame t.2

namespace Overlooks

theorem refl (hq : ∀ run ∈ q.tracked, ¬ l.Speculative run) :
    Overlooks l q.workspace.id (q, l) (q, l) :=
  ⟨⟨rfl, rfl, hq, .refl _ _ l⟩, .refl l⟩

variable (h : Overlooks l v t t') (he : l.Flags e)

include h he

theorem both (hn : e.isSpeculative = false) (now now' : Instant) :
    Overlooks l v (attendOne t now e) (attendOne t' now' e) := by
  refine ⟨?_, h.frame.trans (attendOne_frame t now e)⟩
  have hp := h.paired
  have hstep := (Backend.services_agree trivial).handle (e := e)
    (⟨hp.queue, hp.id, hp.tracked, hp.state.tick now now'⟩ :
      Paired _ v _ (t.1, { t.2 with clock := now }) (t'.1, { t'.2 with clock := now' }))
    fun x hx _ => by
      have hxs := he.not_speculative hx (Event.isSpeculative_of_run hx ▸ hn)
      exact ⟨fun _ => hxs, fun _ => hxs⟩
  exact (hstep.imp (fun _ ⟨_, _, _, _, hd⟩ => hd) fun _ _ _ _ => trivial).unstopped.2

theorem skip (hs : e.isSpeculative = true) (now : Instant) : Overlooks l v (attendOne t now e) t' := by
  refine ⟨?_, h.frame.trans (attendOne_frame t now e)⟩
  obtain ⟨x, hx, hxs⟩ := Event.exists_run hs
  have hp := h.paired
  have hstate := hp.state.tick now t'.2.clock
  rcases handle_speculative hx hxs t.1 { t.2 with clock := now } with ht | ht
  · rw [attendOne, ht]
    exact ⟨hp.queue, hp.id, hp.tracked, hstate⟩
  · rw [attendOne, ht]
    refine ⟨hp.queue, hp.id, hp.tracked, hstate.enqueuePlan_left fun hr => ?_⟩
    have hsome := congrArg Option.isSome (h.frame.speculative x.id)
    rw [Option.isSome_map, Option.isSome_map] at hsome
    exact not_not.mpr (he.speculative hx hxs (hsome ▸ hr))

end Overlooks

/-- All events of a sequence are handled, or those that do not tell of speculative runs. -/
theorem Overlooks.attend {es es' : List (Instant × Event)} (h : Overlooks l v t t')
    (he : ∀ e ∈ es, l.Flags e.2)
    (hes : es'.map (·.2) = (es.map (·.2)).filter fun e => !e.isSpeculative) :
    Overlooks l v (attend t es) (attend t' es') := by
  induction es generalizing es' t t' with
  | nil =>
    obtain rfl := List.map_eq_nil_iff.mp hes
    exact h
  | cons e es ih =>
    obtain ⟨now, e⟩ := e
    have hflags : l.Flags e := he _ List.mem_cons_self
    have hrest := fun e hm => he e (List.mem_cons_of_mem _ hm)
    rw [List.map_cons] at hes
    rcases hs : e.isSpeculative
    · rw [List.filter_cons_of_pos (by simp [hs])] at hes
      obtain ⟨⟨now', e'⟩, es'', rfl, he', hes'⟩ := List.map_eq_cons_iff.mp hes
      obtain rfl : e' = e := he'
      change Overlooks l v (attend (attendOne t now e') es) (attend (attendOne t' now' e') es'')
      exact ih (h.both hflags hs now now') hrest hes'
    · rw [List.filter_cons_of_neg (by simp [hs])] at hes
      exact ih (h.skip hflags hs now) hrest hes

/-- **Speculative runs pass by the queue.** Let a queue that tracks no speculative run handle any events,
in any store, and let it handle those of them that do not tell of speculative runs instead, whenever this
is. The queue comes to be the same. So do all workspaces, with their locks and the runs recorded in them,
and all runs that are not speculative, but for the times in their logs. No speculative run is ever
tracked. -/
theorem attend_bypass (hq : ∀ run ∈ q.tracked, ¬ l.Speculative run) (es es' : List (Instant × Event))
    (he : ∀ e ∈ es, l.Flags e.2)
    (hes : es'.map (·.2) = (es.map (·.2)).filter fun e => !e.isSpeculative) :
    let t := attend (q, l) es
    let t' := attend (q, l) es'
    t'.1 = t.1 ∧
      (∀ v, t'.2.store.workspace? v = t.2.store.workspace? v) ∧
      (∀ run, ¬ l.Speculative run →
        (t'.2.store.run? run).map Run.untimed = (t.2.store.run? run).map Run.untimed ∧
          (t'.2.store.run? run).map (fun r => statuses r.log) =
            (t.2.store.run? run).map fun r => statuses r.log) ∧
      ∀ before, before <+: es → ∀ run ∈ (attend (q, l) before).1.tracked,
        ¬ (attend (q, l) before).2.Speculative run := by
  intro t t'
  have h := (Overlooks.refl hq).attend he hes
  have hstate := h.paired.state
  refine ⟨h.paired.queue, fun v => hstate.workspace v trivial,
    fun run hrun => ⟨hstate.run run hrun, hstate.statuses hrun⟩, fun before hb run hrun => ?_⟩
  have hrest : (before.filter fun e => !e.2.isSpeculative).map (·.2) =
      (before.map (·.2)).filter fun e => !e.isSpeculative := by
    rw [List.filter_map]
    rfl
  have hb := (Overlooks.refl hq).attend (fun e hm => he e (hb.subset hm)) hrest
  exact hb.frame.speculative_iff.not.mpr (hb.paired.tracked run hrun)

/-- A speculative run is heard of between the news of two others. Its plan is queued, and everything else
comes to what it comes to without it, an hour later. -/
theorem attend_bypass_between : ∃ (q : Queue) (l : Ledger) (es es' : List (Instant × Event)),
    let t := attend (q, l) es
    let t' := attend (q, l) es'
    (t.2.store.run? "run-2").map Run.status = some .planQueued ∧
      (t'.2.store.run? "run-2").map Run.status = some .pending ∧
      t.1.tracked = ["run-1", "run-3"] ∧ t'.1 = t.1 ∧
      (t.2.store.run? "run-1").map (fun r => statuses r.log) = some [.pending, .planQueued] ∧
      (t'.2.store.run? "run-1").map (fun r => statuses r.log) =
        (t.2.store.run? "run-1").map fun r => statuses r.log := by
  let ws : Workspace := ⟨"ws-1", "prod", "acme", false, ⟨0, 0⟩, none, none⟩
  let run (id : String) (speculative : Bool) : Run :=
    { Run.new 1 { workspace := "ws-1", speculative } ⟨0, 0⟩ with id }
  let runs := [run "run-1" false, run "run-2" true, run "run-3" false]
  let l : Ledger := { store := { workspaces := [ws], runs } }
  let es : List (Instant × Event) := runs.map fun r => (⟨0, 0⟩, .runStatus r)
  let es' : List (Instant × Event) :=
    [run "run-1" false, run "run-3" false].map fun r => (⟨3600, 0⟩, .runStatus r)
  have hflags : ∀ e ∈ es, l.Flags e.2 := by
    intro e he y z hy hz
    obtain ⟨r, hr, rfl⟩ := List.mem_map.mp he
    obtain rfl := Payload.run.inj hy
    have hstored : ∀ r ∈ runs, l.store.run? r.id = some r := by decide +kernel
    rw [Option.some.inj (hz.symm.trans (hstored r hr))]
  obtain ⟨hq, -, hr, -⟩ := attend_bypass (q := ⟨ws, none, []⟩) (l := l) (fun _ h => by cases h) es es'
    hflags (by decide +kernel)
  exact ⟨⟨ws, none, []⟩, l, es, es', by decide +kernel, by decide +kernel, by decide +kernel, hq,
    by decide +kernel, (hr "run-1" (by decide +kernel)).2⟩

end Queue

end Provision
