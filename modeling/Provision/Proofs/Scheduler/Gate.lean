import Provision.Proofs.Ledger.Lock
import Provision.Proofs.Scheduler.Refusal
import Provision.Proofs.Scheduler.Turns

/-!
# The lock gates admission

* `World.upTo run`: the services up to the moment at which the plan of a run is asked for. A scheduler in
  this world comes to a stop there, and shows what it had done by then.
* `Queue.Installed`: a run is the current one of its queue, holds the lock of its workspace and is recorded
  there. It is after the changes that admit it (`Queue.Changes.installed`).
* **`Scheduler.admission_gated`**: when the plan of a run is asked for, the run is the current one of its
  queue and holds the lock, which no user held before. It is recorded afterwards, and no other run of the
  workspace is admitted.
-/

namespace Provision

open Effect (InStep)

/-! ## The services up to a plan -/

namespace World

/-- What is answered after the stop. -/
def offline : Error :=
  .database "scheduling" "stopped"

/-- A call, unless the world has stopped. -/
def unlessStopped {α : Type} (x : Service α) : ExceptT Error (StateM (Bool × Ledger)) α :=
  fun s =>
    if s.1 then (.error offline, s)
    else
      let r := x s.2
      (r.1, (false, r.2))

/-- The services up to the moment at which the plan of a run is asked for. From then on every call is
refused, and nothing changes. The flag tells whether they have stopped. -/
def upTo (run : String) : World (Bool × Ledger) where
  getRun id := unlessStopped (Service.getRun id)
  getWorkspace id := unlessStopped (Service.getWorkspace id)
  enqueuePlan id :=
    if id = run then fun s => (.error offline, (true, s.2)) else unlessStopped (Service.enqueuePlan id)
  lockWorkspace id holder := unlessStopped (Service.lockWorkspace id holder)
  unlockWorkspace id requester force := unlessStopped (Service.unlockWorkspace id requester force)
  setCurrentRun id run := unlessStopped (Service.setCurrentRun id run)
  listOrganizations := unlessStopped Service.listOrganizations
  listWorkspaces organization := unlessStopped (Service.listWorkspaces organization)
  listRuns f := unlessStopped (Service.listRuns f)

end World

namespace Ledger

variable {l l' : Ledger} {r : Run}

/-- The run is stored as it was, and its workspace is where it was. -/
structure Awaits (r : Run) (l : Ledger) : Prop where
  run : l.store.run? r.id = some r
  only : ∀ x ∈ l.store.runs, x.id = r.id → x = r
  place : ∀ w ∈ l.store.workspaces, w.id = r.workspace → w.organization = r.organization

/-- The calls of a scheduler leave the run as it was, unless they queue its plan. -/
theorem Awaits.effect (h : Awaits r l) {c : Request} (he : c.Effect l l') (hc : c.IsScheduling)
    (hn : c ≠ .enqueuePlan r.id) : Awaits r l' := by
  have hset : ∀ {type : EventType} {x : Workspace} (x' : Workspace), l.store.workspace? x.id = some x →
      x'.id = x.id → x'.organization = x.organization → Awaits r (l.putWorkspace type x') := by
    intro type x x' hx hid ho
    refine ⟨h.run, h.only, fun w hw hwr => ?_⟩
    rcases Keyed.mem_replace.mp hw with ⟨rfl, -⟩ | ⟨hw, -⟩
    · exact ho.trans (h.place x (Store.workspace?_mem hx) (hid.symm.trans hwr))
    · exact h.place w hw hwr
  cases he with
  | refused => exact h
  | locked w x holder hx ha =>
    have hx' := Workspace.acquire_eq ha
    exact hset _ hx (hx' ▸ rfl) (hx' ▸ rfl)
  | unlocked w x requester force hx ha =>
    have hx' := Workspace.release_eq ha
    exact hset _ hx (hx' ▸ rfl) (hx' ▸ rfl)
  | currentRunSet w run hx => exact hset { w with currentRun := some run } hx rfl rfl
  | acted c action x x' hact hx ho =>
    have hid : r.id ≠ x'.id := by
      rw [ho.precedes.id]
      intro hrx
      cases c with
      | enqueuePlan run =>
        obtain ⟨rfl, -⟩ := Prod.mk.inj (Option.some.inj hact)
        exact hn (congrArg _ hrx.symm)
      | lock | unlock | setCurrentRun => cases hact
      | _ => cases hc
    refine ⟨(Keyed.find?_replace_of_ne hid).trans h.run, fun y hy hyr => ?_, h.place⟩
    rcases Keyed.mem_replace.mp hy with ⟨rfl, -⟩ | ⟨hy, -⟩
    · exact absurd hyr.symm hid
    · exact h.only y hy hyr
  | _ => cases hc

theorem holder?_lockWorkspace {v : String} {holder : Holder} {w : Workspace}
    (h : Service.lockWorkspace v holder l = (.ok w, l')) : l'.holder? v = some holder := by
  rw [Service.lockWorkspace_apply] at h
  rcases hw : l.store.workspace? v with _ | x
  · rw [hw] at h
    cases h
  obtain rfl := Store.workspace?_id hw
  rcases ha : x.acquire holder with e | x'
  · simp only [hw, ha] at h
    cases h
  · simp only [hw, ha] at h
    obtain rfl := Workspace.acquire_eq ha
    obtain ⟨-, rfl⟩ := Prod.mk.inj h
    rw [holder?, workspace?_putWorkspace hw _ { x with lock := some holder } rfl]
    rfl

end Ledger

namespace World

variable {α : Type} {r : Run} {l : Ledger} {D : Bool × Ledger → Prop}

/-- The world has not stopped, and the run is still to be admitted. -/
def Beside (r : Run) (l : Ledger) (t : Bool × Ledger) : Prop :=
  t = (false, l) ∧ l.Awaits r

/-- The run is tracked by no queue but its own. -/
def Own (r : Run) (o v run : String) : Prop :=
  run = r.id → v = r.workspace ∧ o = r.organization

/-- The world has stopped with the run, which holds the lock of its workspace and is as it was. -/
def StopsAt (r : Run) (v run : String) (t : Bool × Ledger) : Prop :=
  t.1 = true ∧ run = r.id ∧ t.2.holder? v = some (.run r.id) ∧ t.2.store.run? r.id = some r

theorem inStep_unlessStopped {x : Service α} {P : α → α → Prop} (hx : (x l).2.Awaits r)
    (hP : ∀ a, (x l).1 = .ok a → P a a) :
    InStep (Beside r) D P (x l) (unlessStopped x (false, l)) :=
  .of_eq rfl ⟨rfl, hx⟩ hP

theorem unlessStopped_ok {x : Service α} {a : α} {t t' : Bool × Ledger}
    (h : unlessStopped x t = (.ok a, t')) : x t.2 = (.ok a, t'.2) := by
  unfold unlessStopped at h
  split_ifs at h
  · cases h
  · exact Prod.ext (congrArg (·.1) h) (congrArg (·.2.2) h)

theorem awaits_call {c : Request} {x : Service α} (hl : l.Awaits r) (hc : c.perform = do let _ ← x)
    (hs : c.IsScheduling) (hn : c ≠ .enqueuePlan r.id) : (x l).2.Awaits r := by
  have he := c.effect l
  rw [hc, Effect.snd_discard] at he
  exact hl.effect he hs hn

theorem upTo_enqueuePlan {run : String} (h : run ≠ r.id) :
    (upTo r.id).enqueuePlan run = unlessStopped (Service.enqueuePlan run) :=
  if_neg h

theorem upTo_launch {run : String} (h : run ≠ r.id) (hl : l.Awaits r) :
    InStep (Beside r) D (fun _ _ => True) (World.services.enqueuePlan run l)
      ((upTo r.id).enqueuePlan run (false, l)) := by
  rw [upTo_enqueuePlan h]
  exact inStep_unlessStopped (awaits_call (c := .enqueuePlan run) hl rfl trivial (by simpa using h))
    fun _ _ => trivial

/-- A queue does the same up to the plan of a run, and stops there with the lock taken. -/
theorem upTo_queue (o v : String) : World.services.toBackend.Lockstep (upTo r.id).toBackend (Beside r)
    (StopsAt r v) v (Own r o v) (· ≠ r.id) where
  getRun := by
    rintro run l _ - ⟨rfl, hl⟩
    exact inStep_unlessStopped ((Service.getRun_snd run l).symm ▸ hl) fun _ _ => rfl
  lockWorkspace := by
    rintro run l _ - ⟨rfl, hl⟩
    exact inStep_unlessStopped (awaits_call (c := .lock v (.run run)) hl rfl rfl (by simp))
      fun w hw => ⟨rfl, Service.id_of_lockWorkspace hw⟩
  enqueuePlan := by
    rintro run l _ t₀ t₁ x w - hget - hlock ⟨rfl, hl⟩
    by_cases hr : run = r.id
    · have hout : (upTo r.id).enqueuePlan run (false, l) = (.error offline, (true, l)) := by
        simp only [upTo, if_pos hr]
      rw [hout]
      have hh := Ledger.holder?_lockWorkspace (unlessStopped_ok hlock)
      exact .stopped ⟨rfl, hr, hr ▸ hh, hl.run⟩
    · exact upTo_launch hr hl
  launch := by
    rintro run l _ hr ⟨rfl, hl⟩
    exact upTo_launch hr hl
  unlockWorkspace := by
    rintro run l _ - ⟨rfl, hl⟩
    exact inStep_unlessStopped
      (awaits_call (c := .unlock v (.run run) false) hl rfl ⟨rfl, rfl⟩ (by simp))
      fun w hw => ⟨rfl, fun x hx => Service.id_of_unlockWorkspace (hx ▸ hw)⟩
  setCurrentRun := by
    rintro run l _ - ⟨rfl, hl⟩
    exact inStep_unlessStopped (awaits_call (c := .setCurrentRun v run) hl rfl trivial (by simp))
      fun w hw => ⟨rfl, Service.id_of_setCurrentRun hw⟩

/-- **A scheduler does the same up to the plan of a run.** -/
theorem upTo_lockstep (hs : r.speculative = false) :
    World.services.Lockstep (upTo r.id) (Beside r) (StopsAt r)
      (fun o v => v = r.workspace → o = r.organization) (Own r) (· ≠ r.id) where
  queue := upTo_queue
  getRun := by
    rintro run l _ ⟨rfl, hl⟩
    refine inStep_unlessStopped ((Service.getRun_snd run l).symm ▸ hl) fun x hx => ?_
    have hx := Service.run?_of_getRun hx
    refine ⟨rfl, Store.run?_id hx, fun hsp hid => ?_⟩
    rw [hl.only x (Store.run?_mem hx) hid, hs] at hsp
    cases hsp
  getWorkspace := by
    rintro id l _ ⟨rfl, hl⟩
    refine inStep_unlessStopped ((Service.getWorkspace_snd id l).symm ▸ hl) fun w hw => ⟨rfl, ?_⟩
    exact Store.workspace?_id (Service.workspace?_of_getWorkspace hw)
  unlockWorkspace := by
    rintro v run l _ ⟨rfl, hl⟩
    exact inStep_unlessStopped
      (awaits_call (c := .unlock v (.run run) false) hl rfl ⟨rfl, rfl⟩ (by simp)) fun _ _ => trivial
  listOrganizations := by
    rintro l _ ⟨rfl, hl⟩
    exact inStep_unlessStopped hl fun _ _ => rfl
  listWorkspaces := by
    rintro o l _ ⟨rfl, hl⟩
    refine inStep_unlessStopped hl fun ws hws => ⟨rfl, fun w hw => ?_⟩
    obtain rfl : l.store.workspacesOf o = ws := Except.ok.inj hws
    exact hl.place w (List.mem_of_mem_filter hw)
  listRuns := by
    rintro v l _ ⟨rfl, hl⟩
    refine inStep_unlessStopped hl fun rs hrs => ⟨rfl, fun x hx => ?_⟩
    obtain rfl : l.store.openRunsOf v = rs :=
      (Store.listRuns_unfinished _ _).symm.trans (Except.ok.inj hrs)
    obtain ⟨hx, hv, -⟩ := Store.mem_openRunsOf.mp hx
    refine ⟨fun _ o ho hid => ?_, fun hsp hid => ?_⟩
    · rw [hl.only x hx hid] at hv
      exact ⟨hv.symm, ho hv.symm⟩
    · rw [hl.only x hx hid, hs] at hsp
      cases hsp
  stopped := by
    rintro v run t ⟨ht, -⟩
    exact ⟨fun f => ⟨offline, if_pos ht⟩, fun o => ⟨offline, if_pos ht⟩⟩

end World

/-! ## What an admission leaves behind -/

namespace Queue

variable {o v : String} {t t' : Queue × Ledger} {r : Run}

/-- The run is the current one of the queue, holds the lock of the workspace and is recorded there. -/
structure Installed (v run : String) (q : Option Queue) (l : Ledger) : Prop where
  current : q.bind (·.current) = some run
  stored : ∃ w, l.store.workspace? v = some w ∧ w.lock = some (.run run) ∧ w.currentRun = some run

/-- The run waits for its admission, or it was admitted and has not ended. -/
def Installing (v : String) (r : Run) (t : Queue × Ledger) : Prop :=
  t.2.store.run? r.id = some r ∨ Installed v r.id (some t.1) t.2 ∧ ¬ t.2.Ended r.id

theorem Change.installing (h : Change o v t t') (hs : t.2.Sound) (hr : r.speculative = false)
    (hi : Installing v r t) : Installing v r t' := by
  have hsp := h.spares
  -- A queue does nothing to the lock of a run that has not ended.
  have hkept : ∀ {q q' : Queue} {l l' : Ledger}, l.Spares l' → q'.current = q.current →
      l'.store.workspace? v = l.store.workspace? v →
      Installed v r.id (some q) l ∧ ¬ l.Ended r.id → Installed v r.id (some q') l' ∧ ¬ l'.Ended r.id := by
    rintro q q' l l' hsp hc hw ⟨hi, he⟩
    exact ⟨⟨hc.trans hi.current, hw ▸ hi.stored⟩, (hsp.ended r.id).not.mpr he⟩
  cases h with
  | join q l run he hn =>
    exact hi.imp_right fun hi => ⟨⟨join_current hi.1.current run, hi.1.stored⟩, hi.2⟩
  | leave q l run a hc ha he => exact hi.imp_right (hkept (q := q) hsp rfl rfl)
  | release q l w run hc he hw hl =>
    refine hi.imp_right fun hi => ?_
    obtain rfl : run = r.id := Option.some.inj (hc.symm.trans hi.1.current)
    exact absurd he hi.2
  | next q l run hc he hl =>
    refine hi.imp_right fun hi => ?_
    obtain rfl : run = r.id := Option.some.inj (hc.symm.trans hi.1.current)
    exact absurd he hi.2
  | accept q l w x hc hx hp hw hl =>
    obtain rfl := Store.workspace?_id hw
    by_cases hid : x.id = r.id
    · have he : ¬ (l.accept w x).Ended x.id := by
        rw [hsp.ended, Ledger.ended_iff hs hx, Run.isDone, hp]
        decide
      have hin : Installed w.id x.id (some (q.seeing (w.admitted x.id))) (l.accept w x) :=
        ⟨hc, _, Ledger.workspace?_accept hw x, rfl, rfl⟩
      exact .inr (hid ▸ ⟨hin, he⟩)
    · refine hi.imp (fun hr => ?_) fun hi => ?_
      · have hruns : (l.accept w x).store.run? r.id = (l.putRun (x.queued l.clock)).store.run? r.id :=
          congrArg (List.find? _) (Ledger.accept_runs l w x)
        exact hruns.trans
          ((Ledger.run?_putRun_of_ne (r := x.queued l.clock) (fun h => hid h.symm) l).trans hr)
      · exact absurd (Option.some.inj (hc.symm.trans hi.1.current)) hid
  | launch q l x hx hv hxs hp =>
    refine hi.imp (fun hrun => ?_) (hkept (q := q) hsp rfl rfl)
    refine (Ledger.run?_putRun_of_ne (r := x.queued l.clock) (fun hid => ?_) l).trans hrun
    obtain rfl : r = x := Option.some.inj (hrun.symm.trans (hid ▸ hx))
    exact absurd (hr.symm.trans hxs) (by simp)

/-- **A run that was admitted** is the current one of its queue, holds the lock and is recorded. -/
theorem Changes.installed (h : Changes o v t t') (hs : t.2.Sound) (hq : t.1.Fits o v t.2)
    (hr : t.2.store.run? r.id = some r) (hns : r.speculative = false)
    (hn : t'.2.store.run? r.id ≠ some r) : Installed v r.id (some t'.1) t'.2 :=
  ((h.induction (P := Installing v r) hs hq (.inl hr) fun _ _ ht _ hc hi =>
    hc.installing ht hns hi).resolve_left hn).1

end Queue

namespace Ledger

variable {l l' : Ledger} {r : Run}

/-- A pending run that is not speculative was admitted while one ledger became another. -/
structure Admitted (l l' : Ledger) (r : Run) : Prop where
  stored : r ∈ l.store.runs
  speculative : r.speculative = false
  status : r.status = .pending
  queued : ∃ r' ∈ l'.store.runs, r'.id = r.id ∧ r'.status = .planQueued

theorem Admitted.run? (h : l.Admitted l' r) (hl : l.store.Ordered l.supply) :
    l.store.run? r.id = some r :=
  hl.run?_eq_some_iff.mpr ⟨h.stored, rfl⟩

theorem Admitted.run?_ne (h : l.Admitted l' r) (hl : l'.store.Ordered l'.supply) :
    l'.store.run? r.id ≠ some r := by
  intro hr
  obtain ⟨r', hr', hid, hst⟩ := h.queued
  obtain rfl := hl.run_eq hr' (hl.run?_eq_some_iff.mp hr).1 hid
  cases h.status.symm.trans hst

theorem Admitted.mem_runsOf (h : l.Admitted l' r) : r ∈ l.store.runsOf r.workspace :=
  Store.mem_runsOf.mpr ⟨h.stored, rfl⟩

theorem Apart.not_admitted (h : l.Apart r.workspace l') (hl' : l'.store.Ordered l'.supply) :
    ¬ l.Admitted l' r := fun ha =>
  ha.run?_ne hl' (hl'.run?_eq_some_iff.mpr
    ⟨(Store.mem_runsOf.mp (h.runs.symm ▸ ha.mem_runsOf)).1, rfl⟩)

end Ledger

namespace Scheduler

open Queue (Installed)

variable {σ σ' : Roster × Ledger} {e : Event} {r : Run} {w : Workspace}

/-- The run is installed in its workspace. -/
def InstalledAt (r : Run) (σ : Roster × Ledger) : Prop :=
  Installed r.workspace r.id (σ.1.queue? r.organization r.workspace) σ.2

theorem Installed.not_userLocked {v run : String} {q : Option Queue} {l : Ledger}
    (h : Installed v run q l) : ¬ l.UserLocked v := by
  obtain ⟨w, hw, hl, -⟩ := h.stored
  rw [Ledger.userLocked_iff hw, Workspace.isUserLocked_eq_false (.inr hl)]
  simp

theorem dispatch_installed (hg : Good σ) (hb : σ.2.Backs e)
    (ha : σ.2.Admitted (dispatch e σ).2.2 r) :
    InstalledAt r (dispatch e σ).2 ∧ ¬ σ.2.UserLocked r.workspace := by
  rcases dispatch_heard hg hb with hi | ⟨o, v, q, q', hh⟩
  · rw [hi.ledger] at ha
    exact absurd ha ((Ledger.Apart.refl _ _).not_admitted hg.sound.ordered)
  have hs' := hh.confined.good.sound.ordered
  by_cases hv : r.workspace = v
  swap
  · exact absurd ha ((hh.confined.apart _ hv).not_admitted hs')
  subst hv
  have hi := hh.reacts.changes.installed hg.sound hh.fits (ha.run? hg.sound.ordered) ha.speculative
    (ha.run?_ne hs')
  obtain ⟨w, hw, hwid, hwo⟩ := hg.sound.ordered.home r ha.stored
  obtain rfl : o = r.organization := (hh.fits.place w hw hwid).symm.trans hwo
  refine ⟨?_, fun hu => Installed.not_userLocked hi (hh.reacts.changes.userLocked.mpr hu)⟩
  rw [InstalledAt, hh.queue]
  exact hi

theorem Tended.installed (h : Tended w σ σ') (hs' : σ'.2.store.Ordered σ'.2.supply)
    (ha : σ.2.Admitted σ'.2 r) (hw : w.id = r.workspace) (ho : w.organization = r.organization) :
    InstalledAt r σ' ∧ ¬ σ.2.UserLocked r.workspace := by
  obtain ⟨q, l, σ₁, σ₂, ha₁, hg₁, hsd, ha₂⟩ := h
  have hr : r ∈ l.store.runs := by
    have hm := ha.mem_runsOf
    rw [← hw, ← ha₁.ledger.runs, ← hsd.runsOf] at hm
    exact (Store.mem_runsOf.mp hm).1
  have hne : σ₂.2.store.run? r.id ≠ some r := fun hr₂ => by
    have hm := Store.mem_runsOf.mpr ⟨Store.run?_mem hr₂, hw.symm⟩
    rw [← ha₂.ledger.runs] at hm
    exact ha.run?_ne hs' (hs'.run?_eq_some_iff.mpr ⟨(Store.mem_runsOf.mp hm).1, rfl⟩)
  have hi := hsd.fed.reacts.changes.installed hsd.sound (hsd.fits.see rfl)
    (hsd.sound.ordered.run?_eq_some_iff.mpr ⟨hr, rfl⟩) ha.speculative (hsd.ledger ▸ hne)
  refine ⟨?_, fun hu => ?_⟩
  · rw [InstalledAt, ← hw, ← ho, ha₂.queue, hsd.queue]
    refine ⟨hi.current, ?_⟩
    rw [ha₂.ledger.workspace, hsd.ledger]
    exact hi.stored
  · rw [← hw, ← ha₁.userLocked, ← hsd.userLocked, hsd.ledger] at hu
    exact Installed.not_userLocked hi hu

/-- A workspace is seeded, or a seed that is refused does not come to it. -/
theorem seed_tended_or_apart (hg : Good σ) (hw : w ∈ σ.2.store.workspaces) :
    Tended w σ (seed σ).2 ∨ Apart w.organization w.id σ (seed σ).2 := by
  rcases hout : seed σ with ⟨e | u, σ'⟩
  · obtain ⟨before, x, after, hst⟩ := (seed_halted hout).stopped hg
    obtain ⟨org, ho, hwo⟩ := hg.sound.ordered.seat w hw
    have hm : w ∈ σ.2.store.tour :=
      List.mem_flatMap.mpr ⟨org, ho, mem_workspacesOf.mpr ⟨hw, hwo.symm⟩⟩
    rw [hst.tour] at hm
    exact (List.mem_append.mp hm).imp (hst.tended w) (hst.apart w)
  · rcases seed_reseeded hg with ⟨σ₁, hok, hr⟩ | ⟨e, σ₁, herr, -⟩
    · obtain rfl : σ' = σ₁ := congrArg Prod.snd (hout.symm.trans hok)
      exact .inl (hr.tended w hw)
    · cases hout.symm.trans herr

theorem seed_installed (hg : Good σ) (ha : σ.2.Admitted (seed σ).2.2 r) :
    InstalledAt r (seed σ).2 ∧ ¬ σ.2.UserLocked r.workspace := by
  have hs' := (seed_good hg).sound.ordered
  obtain ⟨w, hw, hid, ho⟩ := hg.sound.ordered.home r ha.stored
  rcases seed_tended_or_apart hg hw with ht | hap
  · exact ht.installed hs' ha hid ho
  · exact absurd ha ((hid ▸ hap.ledger).not_admitted hs')

/-! ## The work of a scheduler -/

/-- What a scheduler does at a time. -/
inductive Task
  | hear (e : Event)
  | seed

/-- The tasks that may come up: events recall something. -/
def Task.Arises (l : Ledger) : Task → Prop
  | .hear e => l.Recalls e
  | .seed => True

end Scheduler

/-- What a scheduler does for a task. -/
def World.work {τ : Type} (b : World τ) : Scheduler.Task → World.Step τ Unit
  | .hear e => b.dispatch e
  | .seed => b.seed

namespace Scheduler

variable {t : Task}

theorem work_quiet {r : Roster} {l : Ledger} (hg : Good (r, l.quiet)) (t : Task) :
    (World.services.work t (r, l)).2.1 = (World.services.work t (r, l.quiet)).2.1 ∧
      (World.services.work t (r, l)).2.2.store = (World.services.work t (r, l.quiet)).2.2.store := by
  cases t with
  | hear e => exact (dispatch_quiet hg e).2.imp_right Ledger.store_of_quiet
  | seed => exact (seed_quiet hg).2.imp_right Ledger.store_of_quiet

theorem work_installed (h : Reachable σ) (ht : t.Arises σ.2)
    (ha : σ.2.Admitted (World.services.work t σ).2.2 r) :
    InstalledAt r (World.services.work t σ).2 ∧ ¬ σ.2.UserLocked r.workspace := by
  obtain ⟨roster, l⟩ := σ
  have hg := h.good
  obtain ⟨hroster, hstore⟩ := work_quiet hg t
  have ha' : l.quiet.Admitted (World.services.work t (roster, l.quiet)).2.2 r :=
    ⟨ha.stored, ha.speculative, ha.status, hstore ▸ ha.queued⟩
  have hi : InstalledAt r (World.services.work t (roster, l.quiet)).2 ∧
      ¬ l.quiet.UserLocked r.workspace := by
    cases t with
    | seed => exact seed_installed hg ha'
    | hear e =>
      by_cases hp : (∃ ws, e.payload = .workspace ws) ∨ ∃ x, e.payload = .run x
      · exact dispatch_installed hg (recalls_backs h.later ht hp) ha'
      · rw [not_or, not_exists, not_exists] at hp
        have hsame := (dispatch_aside hp.1 hp.2 (roster, l.quiet)).1
        change Ledger.Admitted _ (dispatch e (roster, l.quiet)).2.2 r at ha'
        rw [hsame] at ha'
        exact absurd ha' ((Ledger.Apart.refl _ _).not_admitted hg.sound.ordered)
  refine ⟨?_, hi.2⟩
  rw [InstalledAt, hroster]
  exact ⟨hi.1.current, hstore ▸ hi.1.stored⟩

/-- The work came to a stop when the plan of a run was asked for. -/
structure HeldUp (r : Run) (τ : Roster × Bool × Ledger) : Prop where
  stopped : τ.2.1 = true
  /-- The run is the current one of its queue. -/
  current : (τ.1.queue? r.organization r.workspace).bind (·.current) = some r.id
  /-- It holds the lock of its workspace. -/
  locked : τ.2.2.holder? r.workspace = some (.run r.id)
  /-- It is pending still. -/
  pending : τ.2.2.store.run? r.id = some r

theorem work_heldUp (h : Reachable σ) (ht : t.Arises σ.2)
    (ha : σ.2.Admitted (World.services.work t σ).2.2 r) :
    HeldUp r ((World.upTo r.id).work t (σ.1, false, σ.2)).2 := by
  have ho := h.ordered
  have hg := h.good
  obtain ⟨w, hw, hid, hwo⟩ := ho.home r ha.stored
  have hm : World.Matched (World.Beside r) (World.Own r) σ (σ.1, false, σ.2) := by
    refine ⟨rfl, fun o v q hq => ?_, rfl, ha.run? ho, fun x hx hxr => ho.run_eq hx ha.stored hxr,
      fun x hx hxr => ?_⟩
    · have hf := hg.fits o v q hq
      refine ⟨hf.id, fun run hrun hrr => ?_⟩
      obtain ⟨hv, hro, -⟩ := (hf.eligible run hrun).2 r ha.stored hrr.symm
      exact ⟨hv.symm, hro.symm⟩
    · rw [ho.workspace_eq hx hw (hxr.trans hid.symm), hwo]
  have hab : Effect.Abreast (World.Matched (World.Beside r) (World.Own r))
      (World.Halts (World.StopsAt r) (World.Own r))
      (World.services.work t σ) ((World.upTo r.id).work t (σ.1, false, σ.2)) := by
    cases t with
    | seed => exact (World.upTo_lockstep ha.speculative).seed hm
    | hear e =>
      refine ((World.upTo_lockstep ha.speculative).dispatch hm fun x hx => ?_).abreast
      obtain ⟨-, -, -, hp⟩ := Ledger.Recalls.run ht h.later hx
      refine ⟨fun _ hxr => ?_, fun hs hxr => ?_⟩
      · have hxp := hp r ha.stored hxr.symm
        exact ⟨hxp.workspace.symm, hxp.organization.symm⟩
      · have hxp := hp r ha.stored hxr.symm
        exact absurd (hxp.speculative.symm.trans ha.speculative) (by simp [hs])
  rcases hab with ⟨-, hm'⟩ | ⟨o, v, q, hq, hv, run, hc, hrun, hstop, rfl, hlock, hr⟩
  · have hs' : (World.services.work t σ).2.2.store.Ordered
        (World.services.work t σ).2.2.supply := by
      cases t with
      | seed => exact Reachable.ordered (h.tail .seed)
      | hear e => exact Reachable.ordered (h.tail (.dispatch e ht))
    exact absurd hm'.state.2.run (ha.run?_ne hs')
  · obtain ⟨rfl, rfl⟩ := hrun rfl
    refine ⟨hstop, ?_, hlock, hr⟩
    rw [hq]
    exact hc

/-- **The lock gates admission.** When a scheduler asks for the plan of a run, the run is the current one
of its queue and holds the lock of its workspace. No user held the lock when the scheduler began; when it
is done, the run is recorded in the workspace, and no other run of the workspace was admitted. -/
theorem admission_gated (h : Reachable σ) (ht : t.Arises σ.2)
    (ha : σ.2.Admitted (World.services.work t σ).2.2 r) :
    HeldUp r ((World.upTo r.id).work t (σ.1, false, σ.2)).2 ∧ ¬ σ.2.UserLocked r.workspace ∧
      InstalledAt r (World.services.work t σ).2 ∧
      ∀ x, σ.2.Admitted (World.services.work t σ).2.2 x → x.workspace = r.workspace → x = r := by
  obtain ⟨hi, hu⟩ := work_installed h ht ha
  refine ⟨work_heldUp h ht ha, hu, hi, fun x hx hw => ?_⟩
  have ho := h.ordered
  obtain ⟨w, hwm, hid, hwo⟩ := ho.home r ha.stored
  obtain ⟨w', hwm', hid', hwo'⟩ := ho.home x hx.stored
  obtain rfl := ho.workspace_eq hwm' hwm (hid'.trans (hw.trans hid.symm))
  have hix := (work_installed h ht hx).1.current
  rw [hw, ← hwo', hwo] at hix
  exact ho.run_eq hx.stored ha.stored (Option.some.inj (hix.symm.trans hi.current))

/-- The first run of a workspace is admitted when its event arrives. -/
theorem admission_gated_firstRun : ∃ e ∈ Ledger.firstRun.announced, ∃ r,
    Ledger.firstRun.Admitted (World.services.work (.hear e) ([], Ledger.firstRun)).2.2 r ∧
      HeldUp r ((World.upTo r.id).work (.hear e) ([], false, Ledger.firstRun)).2 := by
  obtain ⟨e, he, r, hr, hs, hp, hq⟩ : ∃ e ∈ Ledger.firstRun.announced,
      ∃ r ∈ Ledger.firstRun.store.runs, r.speculative = false ∧ r.status = .pending ∧
        ∃ r' ∈ (dispatch e ([], Ledger.firstRun)).2.2.store.runs,
          r'.id = r.id ∧ r'.status = .planQueued := by
    decide +kernel
  have hreach : Reachable ([], Ledger.firstRun) := Reachable.after (r := []) (l := {}) .refl
  have ha : Ledger.firstRun.Admitted (World.services.work (.hear e) ([], Ledger.firstRun)).2.2 r :=
    ⟨hr, hs, hp, hq⟩
  exact ⟨e, he, r, ha, (admission_gated hreach (t := .hear e) (.announced he) ha).1⟩

end Scheduler

end Provision
