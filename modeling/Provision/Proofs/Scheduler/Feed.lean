import Provision.Proofs.Queue.Refresh

/-!
# Feeding a queue

What a seed does to the queue of one workspace.

* `Queue.hear_all`: the unfinished runs of the workspace are heard of, and none is refused.
* `Queue.joining`: the runs that should be tracked, the active one first. That is their order anyway if
  it comes first among them (`Queue.joining_of_first`).
* `Queue.Fed`: what the queue looks like after it. It tracks the runs that it should, unless the way was
  obstructed, and its current run was tried (`Queue.feed_fed`).
-/

namespace Provision

open Scheduler (feed refresh)

namespace Store

/-- The runs of a workspace that are not done. -/
def openRunsOf (s : Store) (v : String) : List Run :=
  (s.runsOf v).filter fun r => !r.isDone

theorem mem_openRunsOf {s : Store} {v : String} {r : Run} :
    r ∈ s.openRunsOf v ↔ r ∈ s.runs ∧ r.workspace = v ∧ r.isDone = false := by
  simp [openRunsOf, and_assoc]

/-- The active runs of a workspace. -/
def activeRunsOf (s : Store) (v : String) : List Run :=
  (s.openRunsOf v).filter (·.isActive)

theorem mem_activeRunsOf {s : Store} {v : String} {r : Run} :
    r ∈ s.activeRunsOf v ↔ r ∈ s.runsOf v ∧ r.isActive = true := by
  rw [activeRunsOf, List.mem_filter, mem_openRunsOf, mem_runsOf, and_assoc, and_assoc, and_assoc]
  refine and_congr_right fun _ => and_congr_right fun _ => and_iff_right_of_imp fun h => ?_
  exact ((Run.isActive_iff r).mp h).2.2

theorem listRuns_unfinished (s : Store) (v : String) :
    s.listRuns { workspace := some v, statuses := some Scheduler.unfinished } = s.openRunsOf v := by
  have hst : ∀ status : RunStatus, Scheduler.unfinished.contains status = !status.isDone := by
    intro status
    cases status <;> rfl
  unfold listRuns openRunsOf runsOf
  rw [List.filter_filter]
  refine List.filter_congr fun r _ => ?_
  simp only [RunFilter.accepts, Option.all_none, Option.all_some, hst, Bool.true_and, Bool.and_true,
    Run.isDone]
  rw [Bool.and_comm, Bool.beq_comm]

end Store

namespace Queue

open Effect

variable {o v : String} {q : Queue} {l : Ledger}

/-- A run that was read from the store a while ago and was not done then. -/
structure Read (o v : String) (l : Ledger) (r : Run) : Prop where
  /-- It could have been announced. -/
  vouched : l.Vouches (Event.runStatus r)
  workspace : r.workspace = v
  organization : r.organization = o
  /-- It was not done. -/
  undone : r.isDone = false
  /-- It is still stored. -/
  stored : (l.store.run? r.id).isSome

theorem Read.mono {l' : Ledger} {r : Run} (h : Read o v l r) (hg : l.Grows l') (hsp : l.Spares l') :
    Read o v l' r :=
  ⟨hg.vouches (fun ht => by cases ht) h.vouched, h.workspace, h.organization, h.undone,
    (hsp.run? r.id).trans h.stored⟩

/-- **The unfinished runs are heard of**, and none is refused. -/
theorem hear_all (hs : l.Sound) (hq : q.Fits o v l) (hw : (l.store.workspace? v).isSome)
    {runs : List Run} (hr : ∀ r ∈ runs, Read o v l r) :
    let out := (runs.forM fun r => handle Backend.services (Event.runStatus r)) (q, l)
    Reacts o v (q, l) out.2 ∧ out.1 = .ok () ∧ out.2.1.tracked = runs.foldl tell q.tracked ∧
      ∀ r ∈ runs, r.speculative = true → r.status = .pending →
        ∀ x ∈ out.2.2.store.runs, x.id = r.id → x.status ≠ .pending := by
  induction runs generalizing q l with
  | nil => exact ⟨.refl _, rfl, rfl, fun _ h => by cases h⟩
  | cons r runs ih =>
    intro out
    obtain ⟨hv, hrw, hro, hd, hst⟩ := hr r List.mem_cons_self
    have hh := handle_run (e := Event.runStatus r) rfl (hrw.trans hq.id.symm) l
    obtain ⟨hre, htr, hl⟩ := handleRun_reacts hs hq hv hrw hro
    have hok := handleRun_ok hs hv hq hd hrw hst hw
    rw [← hh] at hre htr hl hok
    obtain ⟨hs', hg, hq'⟩ := hre.changes.sound hs hq
    have hsp := Changes.spares hre.changes hs hq
    obtain ⟨hre', hok', htr', hl'⟩ := ih hs' hq' ((hsp.workspace? v).trans hw) fun x hx =>
      (hr x (List.mem_cons_of_mem r hx)).mono hg hsp
    have hout : out = (runs.forM fun r => handle Backend.services (Event.runStatus r))
        (handle Backend.services (Event.runStatus r) (q, l)).2 := bind_ok (Prod.ext hok rfl)
    rw [hout]
    refine ⟨hre.trans hre' hs hq, hok', by rw [htr', htr, List.foldl_cons], ?_⟩
    intro x hx hxs hxp y hy hid
    rcases List.mem_cons.mp hx with rfl | hx
    · obtain ⟨-, hg', -⟩ := hre'.changes.sound hs' hq'
      have hi := hs'.ordered.issuedRuns
      obtain ⟨z, hz⟩ := Option.isSome_iff_exists.mp ((hsp.run? x.id).trans hst)
      obtain ⟨z', hz', hp⟩ := hg'.run hy (hid ▸ Store.run?_id hz ▸ hi z (Store.run?_mem hz))
      exact hp.begun (hl hxs hxp z' hz' (hp.id.symm.trans hid))
    · exact hl' x hx hxs hxp y hy hid

/-- The runs that were read, the active one first. -/
def activeFirst (runs : List Run) : List Run :=
  (runs.filter (·.isActive)) ++ runs.filter fun r => !r.isActive

theorem activeFirst_perm (runs : List Run) : (activeFirst runs).Perm runs :=
  List.filter_append_perm _ runs

theorem foldl_tell {runs : List Run} (hd : ∀ r ∈ runs, r.isDone = false)
    (hn : (runs.map Run.id).Nodup) (tracked : List String) :
    runs.foldl tell tracked =
      tracked ++ ((runs.filter fun r => !r.speculative).map (·.id)).filter (· ∉ tracked) := by
  induction runs generalizing tracked with
  | nil => simp
  | cons r runs ih =>
    obtain ⟨hr, hn⟩ := List.nodup_cons.mp hn
    have hd' := fun x hx => hd x (List.mem_cons_of_mem r hx)
    rw [List.foldl_cons, ih hd' hn]
    by_cases hs : r.speculative = true
    · simp [tell, hs]
    · have hs : r.speculative = false := by simpa using hs
      rw [tell_of_not_speculative hs, if_neg (by simp [hd r List.mem_cons_self])]
      by_cases hm : r.id ∈ tracked
      · simp [hs, hm]
      · have hf : ((runs.filter fun r => !r.speculative).map (·.id)).filter (· ∉ tracked ++ [r.id]) =
            ((runs.filter fun r => !r.speculative).map (·.id)).filter (· ∉ tracked) := by
          refine List.filter_congr fun id hid => ?_
          obtain ⟨x, hx, rfl⟩ := List.mem_map.mp hid
          have hne : x.id ≠ r.id := fun h => hr (h ▸ List.mem_map_of_mem (List.mem_of_mem_filter hx))
          simp [hne]
        rw [if_neg hm, hf, List.append_assoc]
        simp [hs, hm]

/-- The runs that should be tracked, the active one first. -/
def joining (l : Ledger) (v : String) : List String :=
  ((activeFirst (l.store.openRunsOf v)).filter fun r => !r.speculative).map (·.id)

theorem unfinishedOf_eq (l : Ledger) (v : String) : l.store.unfinishedOf v =
    ((l.store.openRunsOf v).filter fun r => !r.speculative).map (·.id) := by
  rw [Store.unfinishedOf, Store.openRunsOf, List.filter_filter]

theorem joining_perm (l : Ledger) (v : String) : (joining l v).Perm (l.store.unfinishedOf v) := by
  rw [unfinishedOf_eq]
  exact ((activeFirst_perm _).filter _).map _

theorem joining_of_inactive (h : l.store.activeRunsOf v = []) :
    joining l v = l.store.unfinishedOf v := by
  have hf : (l.store.openRunsOf v).filter (fun r => !r.isActive) = l.store.openRunsOf v := by
    refine List.filter_eq_self.mpr fun r hr => ?_
    have hn : r ∉ l.store.activeRunsOf v := h ▸ List.not_mem_nil
    rw [Store.activeRunsOf, List.mem_filter] at hn
    simpa using fun ha => hn ⟨hr, ha⟩
  rw [joining, activeFirst, hf, unfinishedOf_eq]
  change List.map _ (List.filter _ (l.store.activeRunsOf v ++ _)) = _
  rw [h, List.nil_append]

theorem activeFirst_eq_self {runs : List Run} (hn : runs.Nodup)
    (h : ∀ r ∈ runs, r.isActive = true → runs.head? = some r) : activeFirst runs = runs := by
  rcases runs with _ | ⟨a, rest⟩
  · rfl
  obtain ⟨ha, -⟩ := List.nodup_cons.mp hn
  have hrest : ∀ r ∈ rest, r.isActive = false := by
    intro r hr
    by_contra hra
    obtain rfl := Option.some.inj (h r (List.mem_cons_of_mem a hr) (by simpa using hra))
    exact ha hr
  have hnone : rest.filter (·.isActive) = [] :=
    List.filter_eq_nil_iff.mpr fun r hr => by simp [hrest r hr]
  have hall : (rest.filter fun r => !r.isActive) = rest :=
    List.filter_eq_self.mpr fun r hr => by simp [hrest r hr]
  rw [activeFirst, List.filter_cons, List.filter_cons, hnone, hall]
  rcases a.isActive <;> rfl

theorem joining_of_first (hs : l.Sound) (h : ∀ r ∈ l.store.runsOf v, r.isActive = true →
      (l.store.unfinishedOf v).head? = some r.id) : joining l v = l.store.unfinishedOf v := by
  have hj : joining l v =
      (activeFirst ((l.store.openRunsOf v).filter fun r => !r.speculative)).map (·.id) := by
    rw [joining, activeFirst, activeFirst, List.filter_append, List.filter_filter, List.filter_filter,
      List.filter_filter, List.filter_filter]
    simp only [Bool.and_comm]
  rw [hj, unfinishedOf_eq, activeFirst_eq_self]
  · exact .of_map Run.id (hs.ordered.runs.sublist
      (((List.filter_sublist.trans List.filter_sublist).trans List.filter_sublist).map _))
  · intro r hr ha
    obtain ⟨hro, -⟩ := List.mem_filter.mp hr
    obtain ⟨hrm, hrv, -⟩ := Store.mem_openRunsOf.mp hro
    have hh := h r (Store.mem_runsOf.mpr ⟨hrm, hrv⟩) ha
    rw [unfinishedOf_eq, List.head?_map] at hh
    obtain ⟨x, hx, hid⟩ := Option.map_eq_some_iff.mp hh
    obtain ⟨hxo, -⟩ := List.mem_filter.mp (List.mem_of_mem_head? hx)
    rwa [hs.ordered.run_eq (Store.mem_openRunsOf.mp hxo).1 hrm hid] at hx

theorem joining_of_active {a : Run} (h : l.store.activeRunsOf v = [a]) :
    joining l v = a.id :: (((l.store.openRunsOf v).filter fun r => !r.isActive).filter
      fun r => !r.speculative).map (·.id) := by
  have ha := (Store.mem_activeRunsOf.mp (h ▸ List.mem_singleton_self a)).2
  have hns := ((Run.isActive_iff a).mp ha).1
  rw [joining, activeFirst]
  change List.map _ (List.filter _ (l.store.activeRunsOf v ++ _)) = _
  rw [h]
  simp [hns]

/-- The runs that have not ended and those that join them are all that should be tracked. -/
theorem lasting_joining_perm (hs : l.Sound) (hq : q.Fits o v l) :
    (lasting l q.tracked ++ (joining l v).filter (· ∉ lasting l q.tracked)).Perm
      (l.store.unfinishedOf v) := by
  have hn := hs.ordered.nodup_unfinishedOf v
  refine (List.perm_ext_iff_of_nodup ?_ hn).mpr fun run => ?_
  · refine List.nodup_append.mpr ⟨hq.nodup.filter _, ((joining_perm l v).nodup_iff.mpr hn).filter _, ?_⟩
    rintro a ha b hb rfl
    exact (by simpa using (List.mem_filter.mp hb).2 : a ∉ _) ha
  · rw [List.mem_append, List.mem_filter, (joining_perm l v).mem_iff]
    have hsub : run ∈ lasting l q.tracked → run ∈ l.store.unfinishedOf v := fun h =>
      (hq.eligible run (mem_lasting.mp h).1).mem_unfinishedOf (mem_lasting.mp h).2
    by_cases h : run ∈ lasting l q.tracked
    · simp [h, hsub h]
    · simp [h]

/-- What feeding a queue comes to. -/
structure Fed (o v : String) (ws : Workspace) (q : Queue) (l : Ledger)
    (out : Except Error Unit × Queue × Ledger) : Prop where
  /-- The queue reacts, once it saw the workspace. -/
  reacts : Reacts o v (q.seeing ws, l) out.2
  /-- The current run was tried. -/
  waits : Waits v out.2
  /-- All that should be tracked is tracked, and no speculative run is left pending; or the way is
  obstructed, and a run that is gone has become the current one. -/
  outcome : (¬ Obstructed l q.tracked ∧
      out.2.1.tracked =
        lasting l q.tracked ++ (joining l v).filter (· ∉ lasting l q.tracked) ∧
      ∀ r ∈ out.2.2.store.runsOf v, r.speculative = true → r.status ≠ .pending) ∨
    (Obstructed l q.tracked ∧ ∃ before b after, q.tracked = before ++ b :: after ∧
      (∀ a ∈ before, l.Ended a) ∧ l.store.run? b = none ∧ out.2.1.tracked = b :: after)

section Feed

variable {ws : Workspace} (hs : l.Sound) (hq : q.Fits o v l) (hw : (l.store.workspace? v).isSome)
  (hws : ws.id = v)

include hq hws in
theorem feed_apply (runs : List Run) (l : Ledger) : feed ws runs (q, l) =
    (do
      q.tracked.forM refresh
      (activeFirst runs).forM fun r => handle Backend.services (Event.runStatus r)
      retry Backend.services : Step Ledger Unit) (q.seeing ws, l) := by
  have hh := handle_workspace (q := q)
    (e := { type := .workspaceUpdated, payload := .workspace ws, isLocal := true }) rfl
    (hws.trans hq.id.symm) l
  unfold feed
  rw [bind_ok hh, bind_ok (self_apply _ _)]
  rfl

include hs in
theorem read_of_mem_openRunsOf (ho : ∀ w ∈ l.store.workspaces, w.id = v → w.organization = o) {r : Run}
    (hr : r ∈ l.store.openRunsOf v) : Read o v l r := by
  obtain ⟨hr, hv, hd⟩ := Store.mem_openRunsOf.mp hr
  obtain ⟨w, hw, hwid, hwo⟩ := hs.ordered.home r hr
  refine ⟨Ledger.vouches_stored hs.ordered hr, hv, hwo.symm.trans (ho w hw (hwid.trans hv)), hd, ?_⟩
  rw [hs.ordered.run?_eq_some_iff.mpr ⟨hr, rfl⟩]
  rfl

include hs in
/-- A speculative run is past pending once all that were not done were heard of. -/
theorem launched_of_read {l' : Ledger} (hsp : l.Spares l') (hg : l.Grows l')
    (hl : ∀ x ∈ l.store.openRunsOf v, x.speculative = true → x.status = .pending →
      ∀ r ∈ l'.store.runs, r.id = x.id → r.status ≠ .pending) :
    ∀ r ∈ l'.store.runsOf v, r.speculative = true → r.status ≠ .pending := by
  intro r hr hrs
  obtain ⟨hr, hrv⟩ := Store.mem_runsOf.mp hr
  obtain ⟨x, hx, hxr⟩ := hsp.run_of hs hg hr
  by_cases hd : x.isDone = true
  · exact RunStatus.not_pending_of_isDone (hxr.done hd)
  by_cases hp : x.status = .pending
  · have hm : x ∈ l.store.openRunsOf v := Store.mem_openRunsOf.mpr
      ⟨hx, hxr.workspace.symm.trans hrv, by simpa using hd⟩
    exact hl x hm (hxr.speculative.symm.trans hrs) hp r hr hxr.id
  · exact hxr.begun hp

include hs hq hw hws in
/-- **A queue is fed.** -/
theorem feed_fed : Fed o v ws q l (feed ws (l.store.openRunsOf v) (q, l)) := by
  have hq₀ : (q.seeing ws).Fits o v l := hq.see hws
  obtain ⟨hre, href⟩ := refresh_all hs hq₀ hw (List.nil_append _).symm fun _ h => by cases h
  obtain ⟨hs₁, hg₁, hq₁⟩ := hre.changes.sound hs hq₀
  have hsp₁ := Changes.spares hre.changes hs hq₀
  have happ := feed_apply hq hws (l.store.openRunsOf v) l
  rcases h₁ : q.tracked.forM refresh (q.seeing ws, l) with ⟨res, q₁, l₁⟩
  have h₁' : (q.seeing ws).tracked.forM refresh (q.seeing ws, l) =
      (res, q₁, l₁) := h₁
  rw [h₁'] at hre href hs₁ hg₁ hq₁ hsp₁
  generalize ht : q₁.tracked = tracked₁ at href
  cases href with
  | stuck e before after b _ hob hsplit he hg =>
    rw [happ, bind_error h₁]
    refine ⟨hre, fun r hr hc _ => ?_, .inr ⟨hob, before, b, after, hsplit, he, hg, ht⟩⟩
    -- The current run is gone, so no stored run waits.
    have hb : q₁.current = some b := by rw [← head?_tracked hq₁.headed, ht]; rfl
    have hid : b = r.id := Option.some.inj (hb.symm.trans hc)
    have hst := hs₁.ordered.run?_eq_some_iff.mpr ⟨(Store.mem_runsOf.mp hr).1, hid.symm⟩
    have hsome := hsp₁.run? b
    rw [hst, hg] at hsome
    cases hsome
  | clear hob =>
    have hread : ∀ r ∈ activeFirst (l.store.openRunsOf v), Read o v l₁ r := fun r hr =>
      (read_of_mem_openRunsOf hs hq.place ((activeFirst_perm _).mem_iff.mp hr)).mono hg₁ hsp₁
    have hn : ((activeFirst (l.store.openRunsOf v)).map Run.id).Nodup :=
      ((activeFirst_perm _).map Run.id).nodup_iff.mpr
        (hs.ordered.runs.sublist ((List.filter_sublist.trans List.filter_sublist).map _))
    obtain ⟨hre₂, hok₂, ht₂, hl₂⟩ := hear_all hs₁ hq₁ ((hsp₁.workspace? v).trans hw) hread
    have hout : feed ws (l.store.openRunsOf v) (q, l) = retry Backend.services
        ((activeFirst (l.store.openRunsOf v)).forM
          (fun r => handle Backend.services (Event.runStatus r)) (q₁, l₁)).2 := by
      rw [happ, bind_ok h₁]
      exact bind_ok (Prod.ext hok₂ rfl)
    obtain ⟨hs₂, hg₂, hq₂⟩ := hre₂.changes.sound hs₁ hq₁
    obtain ⟨hch₃, hw₃, ht₃⟩ := retry_reacts hs₂ hq₂
    obtain ⟨-, hg₃, -⟩ := Changes.sound hch₃ hs₂ hq₂
    rw [foldl_tell (fun r hr => (hread r hr).undone) hn] at ht₂
    have hsp₂ := Changes.spares hre₂.changes hs₁ hq₁
    have hsp₃ := Changes.spares hch₃ hs₂ hq₂
    rw [hout]
    refine ⟨hre.trans (hre₂.trans ⟨hch₃, .inl hw₃⟩ hs₁ hq₁) hs hq₀, hw₃,
      .inl ⟨hob rfl, by rw [ht₃, ht₂, ht]; rfl, ?_⟩⟩
    refine launched_of_read hs ((hsp₁.trans hsp₂).trans hsp₃) ((hg₁.trans hg₂).trans hg₃) ?_
    intro x hx hxs hp r hr hid
    obtain ⟨y, hy, hyr⟩ := hsp₃.run_of hs₂ hg₃ hr
    exact hyr.begun (hl₂ x ((activeFirst_perm _).mem_iff.mpr hx) hxs hp y hy (hyr.id.symm.trans hid))

include hs hq in
variable (ws) in
theorem fits_join_active (hc : q.current = none) {a : Run} (ha : a ∈ l.store.activeRunsOf v) :
    ((q.seeing ws).join a.id).tracked = [a.id] ∧
      (ws.id = v → ((q.seeing ws).join a.id).Fits o v l) := by
  obtain ⟨har, haa⟩ := Store.mem_activeRunsOf.mp ha
  obtain ⟨hns, -, hd⟩ := (Run.isActive_iff a).mp haa
  obtain ⟨hm, hv⟩ := Store.mem_runsOf.mp har
  obtain ⟨hav, -, hao, -, -⟩ := read_of_mem_openRunsOf hs hq.place
    (Store.mem_openRunsOf.mpr ⟨hm, hv, hd⟩)
  have ht : q.tracked = [] := (tracked_eq_nil hq.headed).mpr hc
  refine ⟨?_, fun hws => (hq.see hws).join (hv ▸ hao ▸ hav.eligible rfl hns) fun h => ?_⟩
  · have hp := hq.headed hc
    simp [join, seeing, hc, tracked, hp]
  · exact List.not_mem_nil (ht ▸ h)

include hs hq hw hws in
theorem feed_changes_of_active {a : Run} (hc : q.current = none)
    (ha : l.store.activeRunsOf v = [a]) :
    Changes o v ((q.seeing ws).join a.id, l) (feed ws (l.store.openRunsOf v) (q, l)).2 := by
  have ht : q.tracked = [] := (tracked_eq_nil hq.headed).mpr hc
  have ham : a ∈ l.store.activeRunsOf v := ha ▸ List.mem_singleton_self a
  obtain ⟨har, haa⟩ := Store.mem_activeRunsOf.mp ham
  obtain ⟨har, hav⟩ := Store.mem_runsOf.mp har
  have hq₁ := (fits_join_active ws hs hq hc ham).2 hws
  -- The active run is heard of first.
  have hh : handle Backend.services (Event.runStatus a) (q.seeing ws, l) =
      (.ok (), ((q.seeing ws).join a.id, l)) := by
    rw [handle_run rfl (hav.trans (hq.see hws).id.symm)]
    exact handleRun_active haa (hs.ordered.run?_eq_some_iff.mpr ⟨har, rfl⟩) hc
  have hread : ∀ r ∈ (l.store.openRunsOf v).filter fun r => !r.isActive, Read o v l r := fun r hr =>
    read_of_mem_openRunsOf hs hq.place (List.mem_of_mem_filter hr)
  obtain ⟨hre, hok, -, -⟩ := hear_all hs hq₁ hw hread
  obtain ⟨hs', -, hq'⟩ := hre.changes.sound hs hq₁
  obtain ⟨hch, -, -⟩ := retry_reacts hs' hq'
  have hall : (activeFirst (l.store.openRunsOf v)).forM
      (fun r => handle Backend.services (Event.runStatus r)) (q.seeing ws, l) =
        (.ok (), (((l.store.openRunsOf v).filter fun r => !r.isActive).forM
          (fun r => handle Backend.services (Event.runStatus r)) ((q.seeing ws).join a.id, l)).2) := by
    rw [activeFirst, show (l.store.openRunsOf v).filter (·.isActive) = [a] from ha]
    exact (bind_ok hh).trans (Prod.ext hok rfl)
  have happ := feed_apply hq hws (l.store.openRunsOf v) l
  have hnone : ([] : List String).forM refresh (q.seeing ws, l) = (.ok (), (q.seeing ws, l)) := rfl
  rw [ht, bind_ok hnone, bind_ok hall] at happ
  rw [happ]
  exact hre.changes.trans hch

include hs hq hw hws in
/-- **The active run is the current one** after a queue was fed, if it was before, or if the queue
tracked nothing. -/
theorem feed_held (hh : Held v (some q) l ∨
      q.current = none ∧ (l.store.activeRunsOf v).length ≤ 1) :
    Held v (some (feed ws (l.store.openRunsOf v) (q, l)).2.1)
      (feed ws (l.store.openRunsOf v) (q, l)).2.2 := by
  have hq₀ : (q.seeing ws).Fits o v l := hq.see hws
  rcases hh with hh | ⟨hc, hlen⟩
  · exact (feed_fed hs hq hw hws).reacts.changes.held hs hq₀ hh
  have hmem : ∀ r ∈ l.store.runsOf v, r.isActive = true → r ∈ l.store.activeRunsOf v :=
    fun r hr ha => Store.mem_activeRunsOf.mpr ⟨hr, ha⟩
  rcases ha : l.store.activeRunsOf v with _ | ⟨a, rest⟩
  · refine (feed_fed hs hq hw hws).reacts.changes.held hs hq₀ fun r hr hra => ?_
    exact absurd (ha ▸ hmem r hr hra) List.not_mem_nil
  · rw [ha, List.length_cons] at hlen
    obtain rfl : rest = [] := List.length_eq_zero_iff.mp (by omega)
    have ham : a ∈ l.store.activeRunsOf v := by simp [ha]
    obtain ⟨ht, hq₁⟩ := fits_join_active ws hs hq hc ham
    refine (feed_changes_of_active hs hq hw hws hc ha).held hs (hq₁ hws) fun r hr hra => ?_
    obtain rfl := List.mem_singleton.mp (ha ▸ hmem r hr hra)
    change ((q.seeing ws).join r.id).current = some r.id
    rw [← head?_tracked (hq₁ hws).headed, ht, List.head?_cons]

include hs hq hw hws in
/-- **A run that holds the lock is the current one** after a queue was fed, if it was before, or if
the queue tracked nothing and the run is the only active one. -/
theorem feed_locked (hh : Locked v (some q) l ∨ q.current = none ∧
      (l.store.activeRunsOf v).length ≤ 1 ∧ ∀ w run, l.store.workspace? v = some w →
        w.lock = some (.run run) → ∃ r ∈ l.store.activeRunsOf v, r.id = run) :
    Locked v (some (feed ws (l.store.openRunsOf v) (q, l)).2.1)
      (feed ws (l.store.openRunsOf v) (q, l)).2.2 := by
  have hq₀ : (q.seeing ws).Fits o v l := hq.see hws
  rcases hh with hh | ⟨hc, hlen, hl⟩
  · exact (feed_fed hs hq hw hws).reacts.changes.locked hh
  rcases ha : l.store.activeRunsOf v with _ | ⟨a, rest⟩
  · refine (feed_fed hs hq hw hws).reacts.changes.locked fun w run hw hr => ?_
    obtain ⟨r, hr, -⟩ := hl w run hw hr
    exact absurd (ha ▸ hr) List.not_mem_nil
  · rw [ha, List.length_cons] at hlen
    obtain rfl : rest = [] := List.length_eq_zero_iff.mp (by omega)
    have ham : a ∈ l.store.activeRunsOf v := by simp [ha]
    obtain ⟨ht, hq₁⟩ := fits_join_active ws hs hq hc ham
    refine (feed_changes_of_active hs hq hw hws hc ha).locked fun w run hw hl' => ?_
    obtain ⟨r, hr, rfl⟩ := hl w run hw hl'
    obtain rfl := List.mem_singleton.mp (ha ▸ hr)
    refine ⟨?_, fun x hx hid => ?_⟩
    · change ((q.seeing ws).join r.id).current = some r.id
      rw [← head?_tracked (hq₁ hws).headed, ht, List.head?_cons]
    · obtain ⟨har, haa⟩ := Store.mem_activeRunsOf.mp ham
      rw [hs.ordered.run_eq (Store.mem_runsOf.mp hx).1 (Store.mem_runsOf.mp har).1 hid]
      exact ((Run.isActive_iff r).mp haa).2.1

end Feed

end Queue

end Provision
