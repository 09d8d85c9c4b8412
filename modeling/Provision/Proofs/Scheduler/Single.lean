import Provision.Proofs.Ledger.Move
import Provision.Proofs.Scheduler.Hear
import Provision.Proofs.Scheduler.Sweep

/-!
# One active run at a time

* `Scheduler.Move`: what happens while a scheduler is at work. Events are dispatched in any order, any
  number of times or never; the scheduler seeds at any time, and may be replaced by a new one.
* `Scheduler.Single`: every active run is the current one of its queue. Moves keep this as long as nobody
  but schedulers queues plans (`Scheduler.Move.single`).
* `Scheduler.single_active`: after a seed that was not refused, no workspace ever has two active runs.
-/

namespace Provision.Scheduler

open Identifier (Issued)

variable {o v : String} {σ σ₁ σ' : Roster × Ledger} {q q' : Queue} {e : Event} {w : Workspace}
  {P Q : String → String → Roster × Ledger → Prop}

/-- A property of every stored workspace, in its organization. -/
def Everywhere (P : String → String → Roster × Ledger → Prop) (σ : Roster × Ledger) : Prop :=
  ∀ w ∈ σ.2.store.workspaces, P w.organization w.id σ

/-- The active runs of a workspace are current. -/
def HeldAt (o v : String) (σ : Roster × Ledger) : Prop :=
  Queue.Held v (σ.1.queue? o v) σ.2

/-- A run that holds the lock of a workspace is current, and has begun. -/
def LockedAt (o v : String) (σ : Roster × Ledger) : Prop :=
  Queue.Locked v (σ.1.queue? o v) σ.2

theorem Apart.held (ha : Apart o v σ σ') (h : HeldAt o v σ) : HeldAt o v σ' := by
  rw [HeldAt, Queue.Held, ha.queue, ha.ledger.runs]
  exact h

theorem Apart.locked (ha : Apart o v σ σ') (h : LockedAt o v σ) : LockedAt o v σ' := by
  rw [LockedAt, Queue.Locked, ha.queue, ha.ledger.runs, ha.ledger.workspace]
  exact h

theorem Apart.taken (ha : Apart o v σ σ') (h : σ.2.Taken v) : σ'.2.Taken v := by
  rw [Ledger.Taken, ha.ledger.workspace, Store.activeRunsOf, Store.openRunsOf, ha.ledger.runs]
  exact fun w run hw hl he => h w run hw hl fun hσ => he ((ha.spares.ended run).mpr hσ)

/-! ## Workspace by workspace -/

theorem everywhere_of_spares (hs : σ.2.Sound) (hgr : σ.2.Grows σ'.2) (hsp : σ.2.Spares σ'.2)
    (h : ∀ w ∈ σ.2.store.workspaces, P w.organization w.id σ') : Everywhere P σ' := by
  intro w' hw'
  obtain ⟨w, hw, hid, ho⟩ := hsp.workspace_of hs hgr hw'
  rw [hid, ho]
  exact h w hw

theorem Ignored.apart (h : Ignored e σ σ') (hw : w ∈ σ.2.store.workspaces) :
    Apart w.organization w.id σ σ' :=
  ⟨h.queues w hw, h.ledger ▸ .refl _ _, h.ledger ▸ .refl _⟩

theorem Heard.everywhere (h : Heard e o v q q' σ σ') (hg : Good σ)
    (ha : ∀ o u, u ≠ v → Apart o u σ σ' → P o u σ → Q o u σ') (hv : P o v σ → Q o v σ')
    (hP : Everywhere P σ) : Everywhere Q σ' := by
  refine everywhere_of_spares hg.sound h.confined.grows h.confined.spares fun w hw => ?_
  by_cases hwv : w.id = v
  · have ho := h.fits.place w hw hwv
    have hPw := hP w hw
    rw [hwv, ho] at hPw ⊢
    exact hv hPw
  · exact ha _ _ hwv (h.confined.of_ne _ hwv) (hP w hw)

theorem Reseeded.everywhere (h : Reseeded σ σ') (hg : Good σ)
    (hP : ∀ {o v σ σ'}, Apart o v σ σ' → P o v σ → P o v σ')
    (hQ : ∀ {o v σ σ'}, Apart o v σ σ' → Q o v σ → Q o v σ')
    (hs : ∀ {w q l σ σ'}, Good σ → Seeded w q l σ σ' → P w.organization w.id σ →
      Q w.organization w.id σ')
    (hσ : Everywhere P σ) : Everywhere Q σ' := by
  refine everywhere_of_spares hg.sound h.grows h.spares fun w hw => ?_
  obtain ⟨q, l, σ₁, σ₂, ha₁, hg₁, hsd, ha₂⟩ := h.tended w hw
  exact hQ ha₂ (hs hg₁ hsd (hP ha₁ (hσ w hw)))

theorem Heard.held (h : Heard e o v q q' σ σ') (hg : Good σ) (hh : HeldAt o v σ) :
    HeldAt o v σ' := by
  rw [HeldAt, h.queue]
  refine h.reacts.changes.held hg.sound h.fits fun r hr ha => ?_
  exact h.current.trans (hh r hr ha)

theorem Heard.locked (h : Heard e o v q q' σ σ') (hl : LockedAt o v σ) : LockedAt o v σ' := by
  rw [LockedAt, h.queue]
  refine h.reacts.changes.locked fun w run hw hr => ?_
  obtain ⟨hc, hb⟩ := hl w run hw hr
  exact ⟨h.current.trans hc, hb⟩

/-! ## Active runs -/

/-- Every active run is the current one of its queue. -/
structure Single (σ : Roster × Ledger) : Prop where
  good : Good σ
  /-- The active runs are current. -/
  held : Everywhere HeldAt σ

theorem Good.move {permits : Request → Prop} {r : Roster} {l l' : Ledger} (hg : Good (r, l))
    (hm : l.Move permits l') : Good (r, l') ∧ l.Grows l' := by
  obtain ⟨hs, hgr⟩ := hm.sound hg.sound
  exact ⟨⟨hs, fun o v q hq => (hg.fits o v q hq).mono hgr⟩, hgr⟩

theorem Single.uncrowded (h : Single σ) (hw : w ∈ σ.2.store.workspaces) : ¬ σ.2.Crowded w.id :=
  (h.held w hw).uncrowded h.good.sound

theorem Good.workspace_of_precedes (hg : Good σ) {l' : Ledger} (hgr : σ.2.Grows l') {w' : Workspace}
    (hw' : w' ∈ l'.store.workspaces) {r r' : Run} (hr : r ∈ σ.2.store.runs) (hp : r.Precedes r')
    (hv : r'.workspace = w'.id) :
    ∃ w ∈ σ.2.store.workspaces, w.id = w'.id ∧ w.organization = w'.organization ∧
      r ∈ σ.2.store.runsOf w'.id := by
  obtain ⟨w, hw, hid, -⟩ := hg.sound.ordered.home r hr
  have hwid : w.id = w'.id := hid.trans (hp.workspace.symm.trans hv)
  obtain ⟨u, hu, hu', ho⟩ := hgr.workspace hw' (hwid ▸ hg.sound.ordered.issuedWorkspaces w hw)
  rw [hg.sound.ordered.workspace_eq hu hw (hu'.symm.trans hwid.symm)] at ho
  exact ⟨w, hw, hwid, ho.symm, Store.mem_runsOf.mpr ⟨hr, hp.workspace.symm.trans hv⟩⟩

/-- **Calls keep active runs current**, unless they queue plans. -/
theorem Single.move {permits : Request → Prop} (hp : ∀ run, ¬ permits (.enqueuePlan run)) {r : Roster}
    {l l' : Ledger} (h : Single (r, l)) (hm : l.Move permits l') : Single (r, l') := by
  obtain ⟨hg', hgr⟩ := h.good.move hm
  refine ⟨hg', fun w' hw' x hx ha => ?_⟩
  obtain ⟨hx, hxv⟩ := Store.mem_runsOf.mp hx
  obtain ⟨y, hy, hyx, hya⟩ : ∃ y ∈ l.store.runs, y.Precedes x ∧ y.isActive = true := by
    cases hm with
    | tick now => exact ⟨x, hx, .refl x, ha⟩
    | request c hc _ => exact (c.effect l).active_of (fun run h => hp run (h ▸ hc)) hx ha
  obtain ⟨w, hw, hid, ho, hy⟩ := h.good.workspace_of_precedes hgr hw' hy hyx hxv
  have hc := h.held w hw y (hid ▸ hy) hya
  rw [ho, hid] at hc
  rw [hyx.id]
  exact hc

/-- **Dispatching an event keeps active runs current.** -/
theorem Single.dispatch (h : Single σ) (he : σ.2.Backs e) : Single (dispatch e σ).2 := by
  rcases dispatch_heard h.good he with hi | ⟨o, v, q, q', hh⟩
  · refine ⟨hi.good, fun w hw => ?_⟩
    rw [hi.ledger] at hw
    exact (hi.apart hw).held (h.held w hw)
  · exact ⟨hh.confined.good, hh.everywhere h.good (fun _ _ _ => Apart.held) (hh.held h.good) h.held⟩

/-- A seed is not refused while active runs are current. -/
theorem Single.seed_ok (h : Single σ) : ∃ σ', seed σ = (.ok (), σ') ∧ Reseeded σ σ' := by
  rcases seed_reseeded h.good with hok | ⟨e, σ', -, -, w, hw, hc⟩
  · exact hok
  · exact absurd hc (h.uncrowded hw)

/-- **A seed makes active runs current**, if they were, or if there were no queues. -/
theorem Reseeded.single (h : Reseeded σ σ') (hg : Good σ)
    (hσ : Everywhere (fun o v σ => HeldAt o v σ ∨ σ.1.queue? o v = none) σ) : Single σ' := by
  refine ⟨h.good, h.everywhere hg (fun ha hP => ?_) Apart.held (fun _ hs hP => hs.held hP) hσ⟩
  exact hP.imp ha.held ha.queue.trans

theorem Good.forget (hg : Good σ) : Good ([], σ.2) :=
  hg.trim fun _ _ _ h => by cases h

theorem Reseeded.single_of_new {l : Ledger} (h : Reseeded ([], l) σ') (hs : l.Sound) : Single σ' :=
  h.single ⟨hs, fun _ _ _ h => by cases h⟩ fun _ _ => .inr rfl

/-! ## Any number of moves -/

/-- What happens while a scheduler is at work, if others make no calls but the permitted ones. -/
inductive Move (permits : Request → Prop) (σ : Roster × Ledger) : Roster × Ledger → Prop
  /-- The clock is read anew, or somebody makes a call. -/
  | ledger (l : Ledger) : σ.2.Move permits l → Move permits σ (σ.1, l)
  | dispatch (e : Event) : e ∈ σ.2.announced → Move permits σ (dispatch e σ).2
  | seed : Move permits σ (seed σ).2
  /-- Another scheduler takes over, and seeds. -/
  | replace : Move permits σ (Scheduler.seed ([], σ.2)).2

/-- Any number of moves. -/
abbrev Moves (permits : Request → Prop) : Roster × Ledger → Roster × Ledger → Prop :=
  Relation.ReflTransGen (Move permits)

theorem Moves.mono {permits permits' : Request → Prop} (h : Moves permits σ σ')
    (hp : ∀ c, permits c → permits' c) : Moves permits' σ σ' := by
  refine Relation.ReflTransGen.mono (fun σ σ' hm => ?_) _ _ h
  cases hm with
  | ledger l hl => exact .ledger l (hl.mono hp)
  | dispatch e he => exact .dispatch e he
  | seed => exact .seed
  | replace => exact .replace

theorem dispatch_good (hg : Good σ) (he : σ.2.Backs e) :
    Good (dispatch e σ).2 ∧ σ.2.Grows (dispatch e σ).2.2 := by
  rcases dispatch_heard hg he with hi | ⟨o, v, q, q', hh⟩
  · exact ⟨hi.good, hi.ledger ▸ .refl _⟩
  · exact ⟨hh.confined.good, hh.confined.grows⟩

theorem seed_good (hg : Good σ) : Good (seed σ).2 := by
  rcases seed_reseeded hg with ⟨σ', hok, hr⟩ | ⟨e, σ', he, hg', -⟩
  · rw [hok]
    exact hr.good
  · rw [he]
    exact hg'

/-- **Every move keeps the scheduler good**, whoever makes what calls. -/
theorem Move.good {permits : Request → Prop} (hm : Move permits σ σ') (hg : Good σ) : Good σ' := by
  cases hm with
  | ledger l hl => exact (hg.move hl).1
  | dispatch e he => exact (dispatch_good hg (.vouched (hg.sound.vouched e he))).1
  | seed => exact seed_good hg
  | replace => exact seed_good hg.forget

theorem Moves.good {permits : Request → Prop} (hm : Moves permits σ σ') (hg : Good σ) : Good σ' := by
  induction hm with
  | refl => exact hg
  | tail _ hm ih => exact hm.good ih

/-- **Every move keeps active runs current**, unless it is a call that queues a plan. -/
theorem Move.single {permits : Request → Prop} (hp : ∀ run, ¬ permits (.enqueuePlan run))
    (hm : Move permits σ σ') (h : Single σ) : Single σ' := by
  cases hm with
  | ledger l hl => exact h.move hp hl
  | dispatch e he => exact h.dispatch (.vouched (h.good.sound.vouched e he))
  | seed =>
    obtain ⟨σ', hok, hr⟩ := h.seed_ok
    rw [hok]
    exact hr.single h.good fun w hw => .inl (h.held w hw)
  | replace =>
    rcases seed_reseeded h.good.forget with ⟨σ', hok, hr⟩ | ⟨e, σ', -, -, w, hw, hc⟩
    · rw [hok]
      exact hr.single_of_new h.good.sound
    · exact absurd hc (h.uncrowded hw)

theorem Moves.single {permits : Request → Prop} (hp : ∀ run, ¬ permits (.enqueuePlan run))
    (hm : Moves permits σ σ') (h : Single σ) : Single σ' := by
  induction hm with
  | refl => exact h
  | tail _ hm ih => exact hm.single hp ih

/-- **No workspace ever has two active runs**, and an active run is the current one of its queue. This
holds from the first seed of a scheduler on, if that was not refused, whatever happens to the events,
and whoever makes what calls, as long as nobody else queues plans. -/
theorem single_active {l : Ledger} (hl : l.Reachable) (hok : (seed ([], l)).1 = .ok ())
    (hm : Moves (fun c => ∀ run, c ≠ .enqueuePlan run) (seed ([], l)).2 σ) :
    ∀ w ∈ σ.2.store.workspaces, ∀ r ∈ σ.2.store.runs, r.workspace = w.id → r.isActive = true →
      (σ.1.queue? w.organization w.id).bind (·.current) = some r.id ∧
        ∀ x ∈ σ.2.store.runs, x.workspace = w.id → x.isActive = true → x = r := by
  have hg : Good ([], l) := ⟨hl.sound, fun _ _ _ h => by cases h⟩
  have h₁ : Single (seed ([], l)).2 := by
    rcases seed_reseeded hg with ⟨σ₁, hσ₁, hr⟩ | ⟨e, σ₁, hσ₁, -⟩
    · rw [hσ₁]
      exact hr.single_of_new hl.sound
    · rw [hσ₁] at hok
      cases hok
  have h := Moves.single (fun run hc => hc run rfl) hm h₁
  intro w hw r hr hrw ha
  have hcr := h.held w hw r (Store.mem_runsOf.mpr ⟨hr, hrw⟩) ha
  refine ⟨hcr, fun x hx hxw hxa => h.good.sound.ordered.run_eq hx hr ?_⟩
  have hcx := h.held w hw x (Store.mem_runsOf.mpr ⟨hx, hxw⟩) hxa
  exact Option.some.inj (hcx.symm.trans hcr)

theorem Moves.of_ledger {permits : Request → Prop} {l : Ledger}
    (h : Relation.ReflTransGen (Ledger.Move permits) σ.2 l) : Moves permits σ (σ.1, l) := by
  induction h with
  | refl => exact .refl
  | tail _ hm ih => exact ih.tail (.ledger _ hm)

theorem Moves.of_events {permits : Request → Prop} {events : List Event} (hg : Good σ)
    (he : ∀ e ∈ events, e ∈ σ.2.announced) :
    Moves permits σ (events.foldl (fun σ e => (dispatch e σ).2) σ) := by
  induction events generalizing σ with
  | nil => exact .refl
  | cons e events ih =>
    have hm := he e List.mem_cons_self
    obtain ⟨hg', hgr⟩ := dispatch_good hg (.vouched (hg.sound.vouched e hm))
    exact .head (.dispatch e hm) (ih hg' fun x hx =>
      hgr.announced.subset (he x (List.mem_cons_of_mem e hx)))

/-- The first run of a workspace is active once its event was dispatched. -/
theorem single_active_firstRun : ∃ e ∈ Ledger.firstRun.announced,
    ∃ σ, σ = (dispatch e ([], Ledger.firstRun)).2 ∧
      ∃ w ∈ σ.2.store.workspaces, ∃ r ∈ σ.2.store.runs, r.workspace = w.id ∧ r.isActive = true ∧
        (σ.1.queue? w.organization w.id).bind (·.current) = some r.id ∧
          ∀ x ∈ σ.2.store.runs, x.workspace = w.id → x.isActive = true → x = r := by
  obtain ⟨e, he, w, hw, r, hr, hrw, ha⟩ : ∃ e ∈ Ledger.firstRun.announced,
      ∃ w ∈ (dispatch e ([], Ledger.firstRun)).2.2.store.workspaces,
        ∃ r ∈ (dispatch e ([], Ledger.firstRun)).2.2.store.runs,
          r.workspace = w.id ∧ r.isActive = true := by
    decide +kernel
  have hl : Moves (fun c => ∀ run, c ≠ .enqueuePlan run) (seed ([], {})).2 ([], Ledger.firstRun) := by
    refine Moves.of_ledger (σ := ([], {})) (Ledger.moves_after (fun c hc run => ?_) ?_)
    · rintro rfl
      simp at hc
    · decide +kernel
  exact ⟨e, he, _, rfl, w, hw, r, hr, hrw, ha,
    single_active .refl rfl (hl.tail (.dispatch e he)) w hw r hr hrw ha⟩

end Provision.Scheduler
