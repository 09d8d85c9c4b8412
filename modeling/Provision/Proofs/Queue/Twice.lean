import Provision.Proofs.Ledger.Lock
import Provision.Proofs.Queue.CatchUp
import Provision.Proofs.Queue.Tracking

/-!
# The same event twice

An event that is heard again right away changes nothing, whatever is stored, whatever the event says and
whatever was refused the first time. Nothing is known of the ledger here.

* `Queue.Admissible`: an attempt to admit a run would change something. After an attempt it would not
  (`Queue.Tried.settled`).
* `Queue.handle_tracked`, `Queue.handleRun_told`: what is tracked after an event, and that the same news
  of a run again make no difference.
* **`Queue.handle_twice`**: the first time the event does to the runs of the queue what it tells; the
  second time they, and the whole ledger, stay what they are then.
-/

namespace Provision.Queue

open Effect

variable {q : Queue} {l : Ledger} {run : String} {x : Run}

/-! ## Attempts to admit a run -/

/-- An attempt to admit the run changes something. -/
def Admissible (q : Queue) (l : Ledger) (run : String) : Prop :=
  ∃ r w, l.store.run? run = some r ∧ r.status = .pending ∧ q.workspace.isUserLocked = false ∧
    l.store.workspace? q.workspace.id = some w ∧ (w.lock = none ∨ w.lock = some (.run run))

theorem not_admissible_of_status {r : Run} (hr : l.store.run? run = some r)
    (hp : r.status ≠ .pending) : ¬ q.Admissible l run := by
  rintro ⟨y, w, hy, hpy, -⟩
  obtain rfl := Option.some.inj (hr.symm.trans hy)
  exact hp hpy

section Tried

variable {out : Except Error Unit × Queue × Ledger} (h : Tried q l run out)

include h

theorem Tried.idle (hn : ¬ q.Admissible l run) : out.2 = (q, l) := by
  cases h with
  | gone | past | heldCopy | unhoused | held => rfl
  | admitted r w hr hp hu hw hl => exact absurd ⟨r, w, hr, hp, hu, hw, hl⟩ hn

/-- Another attempt changes nothing, even if the queue has its old copy of the workspace back. -/
theorem Tried.settled : ¬ (out.2.1.seeing q.workspace).Admissible out.2.2 run := by
  cases h with
  | gone hr =>
    rintro ⟨r, w, hr', -⟩
    cases hr.symm.trans hr'
  | past r hr hp => exact not_admissible_of_status hr hp
  | heldCopy r hr hp hu =>
    rintro ⟨-, -, -, -, hu', -⟩
    exact absurd (hu.symm.trans hu') (by simp)
  | unhoused r hr hp hw =>
    rintro ⟨-, w, -, -, -, hw', -⟩
    cases hw.symm.trans hw'
  | held r w holder hr hp hw hl hne =>
    rintro ⟨-, w', -, -, -, hw', hl'⟩
    obtain rfl := Option.some.inj (hw.symm.trans hw')
    rcases hl' with hl' | hl'
    · cases hl.symm.trans hl'
    · exact hne (Option.some.inj (hl.symm.trans hl'))
  | admitted r w hr hp hu hw hl =>
    obtain rfl := Store.run?_id hr
    have hq : (l.accept w r).store.run? r.id = some (r.queued l.clock) := by
      rw [Store.run?, Ledger.accept_runs]
      exact Ledger.run?_putRun hr _ (r.queued_precedes hp l.clock).id
    exact not_admissible_of_status hq (by simp [Run.queued, Run.enter, Run.enterPlan])

end Tried

theorem schedule_runs (q : Queue) (l : Ledger) (run : String) :
    Has Backend.services q.workspace.id q.current q.pending
      (schedule Backend.services run (q, l)).2.1 :=
  schedule_has (has_self _ q) run

/-! ## Events about other things -/

theorem handle_aside {e : Event} (he : ¬ e.Concerns q.workspace.id) (l : Ledger) :
    handle Backend.services e (q, l) = (.ok (), (q, l)) := by
  unfold handle
  rw [bind_ok (self_apply q l)]
  unfold Event.Concerns at he
  revert he
  rcases e.payload with org | ws | x | chunk | ref <;> intro he
  · rfl
  · dsimp only
    rw [if_neg he]
    rfl
  · dsimp only
    rw [if_neg he]
    rfl
  · rfl
  · rfl

/-! ## Workspaces -/

/-- **The news of a workspace, twice.** -/
theorem handle_workspace_twice {e : Event} {ws : Workspace} (he : e.payload = .workspace ws)
    (hws : ws.id = q.workspace.id) (l : Ledger) (now : Instant) :
    let first := (handle Backend.services e (q, l)).2
    let again : Ledger := { first.2 with clock := now }
    (handle Backend.services e (first.1, again)).2 = (first.1.seeing ws, again) := by
  intro first again
  have hfirst : first = _ := congrArg Prod.snd (handle_workspace he hws l)
  by_cases hu : e.type = .workspaceUnlocked
  swap
  · rw [if_neg hu] at hfirst
    rw [handle_workspace he (by rw [hfirst, seeing_workspace]), if_neg hu]
  rw [if_pos hu, retry_apply] at hfirst
  rcases hc : q.current with _ | a
  · have hfirst : first = (q.seeing ws, l) := by rw [hfirst, seeing, hc]
    have hc' : (first.1.seeing ws).current = none := by rw [hfirst]; exact hc
    rw [handle_workspace he (by rw [hfirst, seeing_workspace]), if_pos hu, retry_apply, hc']
  · have hfirst : first = (schedule Backend.services a (q.seeing ws, l)).2 := by
      rw [hfirst, seeing, hc]
    have hkept := schedule_runs (q.seeing ws) l a
    rw [← hfirst] at hkept
    have hid : ws.id = first.1.workspace.id := (hkept.id Backend.services_isFaithful).symm
    have hc' : (first.1.seeing ws).current = some a := hkept.current.trans hc
    rw [handle_workspace he hid, if_pos hu, retry_apply, hc']
    -- The copy is what it was when the run was tried.
    have hs := (schedule_tried (q.seeing ws) l a).settled
    rw [← hfirst] at hs
    exact (schedule_tried _ _ a).idle hs

/-! ## Runs -/

theorem launchSpeculative_snd (run : String) (q : Queue) (l : Ledger) :
    (launchSpeculative Backend.services run (q, l)).2 = (q, (Service.enqueuePlan run l).2) := by
  have hcall : attempt (call (Service.enqueuePlan run)) (q, l) =
      (.ok (Service.enqueuePlan run l).1, (q, (Service.enqueuePlan run l).2)) := rfl
  unfold launchSpeculative
  rw [Backend.services_enqueuePlan, bind_ok hcall]
  rcases (Service.enqueuePlan run l).1 with e | r
  · cases e <;> rfl
  · rfl

theorem enqueuePlan_started (run : String) (l : Ledger) {r : Run}
    (hr : (Service.enqueuePlan run l).2.store.run? run = some r) : r.status ≠ .pending := by
  have hl : (Service.enqueuePlan run l).2 = _ := congrArg Prod.snd (Service.enqueuePlan_apply run l)
  rcases hx : l.store.run? run with _ | x
  · simp only [hx] at hl
    rw [hl, hx] at hr
    cases hr
  obtain rfl := Store.run?_id hx
  simp only [hx] at hl
  by_cases hp : x.status = .pending
  · have hq := Ledger.run?_putRun hx _ (x.queued_precedes hp l.clock).id
    rw [if_pos hp] at hl
    obtain rfl := Option.some.inj (hq.symm.trans (hl ▸ hr))
    simp [Run.queued, Run.enter, Run.enterPlan]
  · rw [if_neg hp] at hl
    rw [hl, hx] at hr
    exact Option.some.inj hr ▸ hp

theorem enqueuePlan_idle (h : ∀ r, l.store.run? run = some r → r.status ≠ .pending) :
    (Service.enqueuePlan run l).2 = l := by
  rw [Service.enqueuePlan_apply]
  rcases hr : l.store.run? run with _ | r
  · rfl
  · simp only [if_neg (h r hr)]

theorem retire_tracked (q : Queue) (l : Ledger) (run : String) :
    (retire run (q, l)).2.1.tracked = q.pending := by
  obtain ⟨s, hu, hp⟩ : ∃ s, unlock Backend.services run (q, l) = (.ok (), s) ∧
      s.1.pending = q.pending := by
    rcases unlock_apply q l run with ⟨w, -, -, hu⟩ | ⟨-, hu⟩
    · exact ⟨_, hu, rfl⟩
    · exact ⟨_, hu, rfl⟩
  have hr : retire run (q, l) = promote Backend.services s := bind_ok hu
  have hp' := promote_has (has_self Backend.services s.1)
  rw [hr, tracked, hp'.current, hp'.pending, hp]
  rcases q.pending with _ | ⟨a, rest⟩ <;> rfl

section Run

variable (hx : x.speculative = false) (hh : q.current = none → q.pending = [])

include hx hh

/-- **What a queue tracks after it heard of a run**, whatever is stored. -/
theorem handleRun_tracked (l : Ledger) :
    (handleRun Backend.services x (q, l)).2.1.tracked = tell q.tracked x := by
  rw [tell_of_not_speculative hx]
  rcases hc : q.current with _ | a
  · have ht : q.tracked = [] := (tracked_eq_nil hh).mpr hc
    rw [handleRun_idle hx hc, ht]
    by_cases hd : x.isDone = true
    · rw [if_pos hd, if_pos hd]
      exact ht
    · have hk := schedule_runs (q.join x.id) l x.id
      rw [if_neg hd, if_neg hd, tracked, hk.current, hk.pending]
      exact (tracked_join hh x.id).trans (by rw [ht]; simp)
  by_cases ha : a = x.id
  · subst ha
    rw [handleRun_current hx hc]
    by_cases hd : x.isDone = true
    · rw [if_pos hd, if_pos hd, retire_tracked, tracked_eq_cons hc, List.erase_cons_head]
    · rw [if_neg hd, if_neg hd, if_pos (mem_tracked_of_current hc)]
  · have hm : x.id ∈ q.tracked ↔ x.id ∈ q.pending := by
      rw [tracked_eq_cons hc, List.mem_cons]
      exact or_iff_right fun h => ha h.symm
    rw [handleRun_behind hx hc ha]
    simp only [hm]
    split_ifs with hd hp
    · exact tracked_leave hc ha
    · rfl
    · exact tracked_join hh x.id

/-- **Old news**: nothing happens if the run is tracked already, or is done and not tracked. -/
theorem handleRun_told (ht : x.id ∈ q.tracked ↔ x.isDone = false) (l : Ledger) :
    handleRun Backend.services x (q, l) = (.ok (), (q, l)) := by
  rcases hc : q.current with _ | a
  · have hd : x.isDone = true := by
      rw [(tracked_eq_nil hh).mpr hc] at ht
      simpa using ht
    rw [handleRun_idle hx hc, if_pos hd]
  by_cases ha : a = x.id
  · subst ha
    have hd : x.isDone = false := ht.mp (mem_tracked_of_current hc)
    rw [handleRun_current hx hc, if_neg (by simp [hd])]
  · rw [tracked_eq_cons hc, List.mem_cons, or_iff_right fun h => ha h.symm] at ht
    rw [handleRun_behind hx hc ha]
    split_ifs with hd hp
    · have hp : x.id ∉ q.pending := fun h => absurd (ht.mp h) (by simp [hd])
      rw [leave, List.erase_of_not_mem hp]
    · rfl
    · exact absurd (ht.mpr (by simpa using hd)) hp

end Run

/-- **What a queue tracks after an event**, whatever is stored. -/
theorem handle_tracked (hh : q.current = none → q.pending = []) (e : Event) (l : Ledger) :
    (handle Backend.services e (q, l)).2.1.tracked = hear q.workspace.id q.tracked e := by
  by_cases hc : e.Concerns q.workspace.id
  swap
  · rw [handle_aside hc, hear_of_not_concerns hc]
  unfold Event.Concerns at hc
  split at hc
  · next x hx =>
    rw [handle_run hx hc, hear, hx]
    refine Eq.trans ?_ (if_pos hc).symm
    by_cases hs : x.speculative = true
    · rw [handleRun_speculative hs, tell, if_pos hs]
      split_ifs
      · rw [launchSpeculative_snd]
      · rfl
    · exact handleRun_tracked (by simpa using hs) hh l
  · next ws hx =>
    rw [handle_workspace hx hc, hear, hx]
    split_ifs
    · have hk := retry_has (has_self Backend.services (q.seeing ws)) (s := (q.seeing ws, l))
      exact congrArg₂ (fun c p => Option.toList c ++ p) hk.current hk.pending
    · rfl
  · exact hc.elim

theorem mem_tell_iff {tracked : List String} (hn : tracked.Nodup) (hx : x.speculative = false) :
    x.id ∈ tell tracked x ↔ x.isDone = false := by
  rw [tell_of_not_speculative hx]
  by_cases hd : x.isDone = true
  · simp [hd, hn.not_mem_erase]
  · by_cases hm : x.id ∈ tracked <;> simp [hd, hm]

section Twice

variable (hn : q.tracked.Nodup) (hh : q.current = none → q.pending = [])

include hn hh

/-- **The news of a run, twice.** -/
theorem handle_run_twice {e : Event} (he : e.payload = .run x) (hv : x.workspace = q.workspace.id)
    (l : Ledger) (now : Instant) :
    let first := (handle Backend.services e (q, l)).2
    let again : Ledger := { first.2 with clock := now }
    (handle Backend.services e (first.1, again)).2 = (first.1, again) := by
  intro first again
  have hfirst : first = (handleRun Backend.services x (q, l)).2 :=
    congrArg Prod.snd (handle_run he hv l)
  have hturn := handleRun_turn (s := (q, l)) he hv Backend.services hh
  rw [← hfirst] at hturn
  rw [handle_run he (hv.trans (hturn.id Backend.services_isFaithful).symm)]
  by_cases hx : x.speculative = true
  · rw [handleRun_speculative hx] at hfirst ⊢
    by_cases hp : x.status = .pending
    · rw [if_pos hp, launchSpeculative_snd] at hfirst
      have hs : ∀ r, again.store.run? x.id = some r → r.status ≠ .pending := fun r hr => by
        simp only [again, hfirst] at hr
        exact enqueuePlan_started x.id l hr
      rw [if_pos hp, launchSpeculative_snd, enqueuePlan_idle hs]
    · rw [if_neg hp]
  · have hx : x.speculative = false := by simpa using hx
    have ht : first.1.tracked = tell q.tracked x := hfirst ▸ handleRun_tracked hx hh l
    rw [handleRun_told hx (hturn.headed hh) (ht ▸ mem_tell_iff hn hx)]

/-- **The same event twice in a row is the event once.** Whatever is stored, whatever the event says and
whether it was refused the first time, the queue then tracks what the event makes of its runs; hearing of
it again at any time, with nothing done in between, leaves alone the runs of the queue and everything that
is stored, and announces nothing. -/
theorem handle_twice (l : Ledger) (e : Event) (now : Instant) :
    let first := (handle Backend.services e (q, l)).2
    let again : Ledger := { first.2 with clock := now }
    let second := (handle Backend.services e (first.1, again)).2
    first.1.tracked = hear q.workspace.id q.tracked e ∧
      second.1.current = first.1.current ∧ second.1.pending = first.1.pending ∧ second.2 = again := by
  intro first again second
  refine ⟨handle_tracked hh e l, ?_⟩
  by_cases hc : e.Concerns q.workspace.id
  swap
  · have hfirst : first = (q, l) := congrArg Prod.snd (handle_aside hc l)
    have hsecond : second = (first.1, again) :=
      congrArg Prod.snd (handle_aside (by rw [hfirst]; exact hc) again)
    rw [hsecond]
    exact ⟨rfl, rfl, rfl⟩
  unfold Event.Concerns at hc
  split at hc
  · next x hp =>
    have hsecond : second = _ := handle_run_twice hn hh hp hc l now
    rw [hsecond]
    exact ⟨rfl, rfl, rfl⟩
  · next ws hp =>
    have hsecond : second = _ := handle_workspace_twice hp hc l now
    rw [hsecond]
    exact ⟨rfl, rfl, rfl⟩
  · exact hc.elim

end Twice

/-- The news that the current run was canceled are heard twice, an hour apart: the lock goes to the run
behind it the first time, and stays there. -/
theorem handle_twice_canceled : ∃ (q : Queue) (l : Ledger) (e : Event) (now : Instant),
    let first := (handle Backend.services e (q, l)).2
    let second := (handle Backend.services e (first.1, { first.2 with clock := now })).2
    q.current = some "run-1" ∧ first.1.tracked = ["run-2"] ∧ first.1.current = some "run-2" ∧
      first.2.holder? "ws-1" = some (.run "run-2") ∧ second.1.current = some "run-2" ∧
      second.2.holder? "ws-1" = some (.run "run-2") := by
  let ws : Workspace := ⟨"ws-1", "prod", "acme", false, ⟨0, 0⟩, some "run-1", some (.run "run-1")⟩
  let x : Run := { Run.new 1 { workspace := "ws-1" } ⟨0, 0⟩ with id := "run-1", status := .canceled }
  let y : Run := { Run.new 2 { workspace := "ws-1" } ⟨0, 0⟩ with id := "run-2" }
  let l : Ledger := { store := { workspaces := [ws], runs := [x, y] } }
  obtain ⟨ht, hc, -, hl⟩ := handle_twice (q := ⟨ws, some "run-1", ["run-2"]⟩) (by decide)
    (fun h => by cases h) l (.runStatus x) ⟨3600, 0⟩
  refine ⟨⟨ws, some "run-1", ["run-2"]⟩, l, .runStatus x, ⟨3600, 0⟩, rfl,
    ht.trans (by decide +kernel), by decide +kernel, by decide +kernel, ?_, ?_⟩
  · rw [hc]
    decide +kernel
  · rw [hl]
    decide +kernel

end Provision.Queue
