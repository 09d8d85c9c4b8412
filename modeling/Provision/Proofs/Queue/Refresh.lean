import Provision.Proofs.Queue.Reaction
import Provision.Scheduler

/-!
# What a queue is fed

* `Queue.hear`: the runs that a queue tracks after an event. `Queue.handle_run`, `Queue.handle_workspace`:
  an event is heard if it is about the workspace.
* `Queue.refresh_reacts`: a tracked run that has ended is tracked no more. `Queue.refresh_ok` and
  `Queue.refresh_refused` tell when going on from it fails: the next run is gone.
-/

namespace Provision.Queue

open Effect

variable {o v run : String} {q : Queue} {l : Ledger}

/-- The runs that the queue of a workspace tracks after an event. -/
def hear (v : String) (tracked : List String) (e : Event) : List String :=
  match e.payload with
  | .run x => if x.workspace = v then tell tracked x else tracked
  | _ => tracked

theorem handle_run {e : Event} {x : Run} (he : e.payload = .run x)
    (hx : x.workspace = q.workspace.id) (l : Ledger) :
    handle Backend.services e (q, l) = handleRun Backend.services x (q, l) := by
  unfold handle
  rw [bind_ok (self_apply q l), he]
  dsimp only
  rw [if_pos hx]

theorem handle_workspace {e : Event} {w : Workspace} (he : e.payload = .workspace w)
    (hw : w.id = q.workspace.id) (l : Ledger) :
    handle Backend.services e (q, l) =
      if e.type = .workspaceUnlocked then retry Backend.services (q.seeing w, l)
      else (.ok (), (q.seeing w, l)) := by
  unfold handle
  rw [bind_ok (self_apply q l), he]
  dsimp only
  rw [if_pos hw, bind_ok (see_apply w q l)]
  split_ifs <;> rfl

theorem retry_apply (q : Queue) (l : Ledger) :
    retry Backend.services (q, l) = match q.current with
      | none => (.ok (), (q, l))
      | some a => schedule Backend.services a (q, l) := by
  unfold retry
  rw [bind_ok (self_apply q l)]
  rcases q.current with _ | a <;> rfl

section Retry

variable (hs : l.Sound) (hq : q.Fits o v l)

include hs hq

/-- **The current run is tried once more.** -/
theorem retry_reacts : let out := retry Backend.services (q, l)
    Changes o v (q, l) out.2 ∧ Waits v out.2 ∧ out.2.1.tracked = q.tracked := by
  intro out
  have hout : out = _ := retry_apply q l
  rcases hc : q.current with _ | a
  · rw [hc] at hout
    rw [hout]
    exact ⟨.refl, fun r _ h => absurd (hc.symm.trans h) (by simp), rfl⟩
  · rw [hc] at hout
    rw [hout]
    exact (schedule_tried q l a).reacts hs hq hc

end Retry

/-! ## Tracked runs -/

theorem forget_apply (hq : q.Fits o v l) (run : String) (l' : Ledger) :
    forget Backend.services run (q, l') =
      if q.current = some run then retire run (q, l') else (.ok (), (q.leave run, l')) := by
  have hn : q.pending.Nodup := hq.nodup.sublist (List.sublist_append_right _ _)
  have hl : q.leave run = { q with pending := q.pending.filter fun id => id != run } := by
    rw [leave, hn.erase_eq_filter]
  unfold forget
  rw [bind_ok (self_apply q l'), hl]
  split_ifs <;> rfl

section Refresh

variable (hs : l.Sound) (hq : q.Fits o v l) (ht : run ∈ q.tracked)

include hs hq ht

theorem refresh_apply : Scheduler.refresh run (q, l) =
    if q.current = some run ∧ l.Ended run then retire run (q, l)
    else (.ok (), (if l.Ended run then q.leave run else q, l)) := by
  have hg := Service.getRun_apply run l
  unfold Scheduler.refresh
  rcases hr : l.store.run? run with _ | r
  · rw [hr] at hg
    have he := Ledger.ended_of_gone hr
    rw [bind_ok (attempt_apply (call_apply hg q))]
    change forget Backend.services run (q, l) = _
    rw [forget_apply hq, if_pos he]
    simp only [he, and_true]
  · rw [hr] at hg
    obtain rfl := Store.run?_id hr
    obtain ⟨hv, -, hns⟩ := (hq.eligible r.id ht).2 r (Store.run?_mem hr) rfl
    rw [bind_ok (attempt_apply (call_apply hg q))]
    change handle Backend.services (Event.runStatus r) (q, l) = _
    rw [handle_run rfl (hv.trans hq.id.symm)]
    have he := Ledger.ended_iff hs hr
    obtain ⟨a, hc⟩ : ∃ a, q.current = some a := by
      rcases hc : q.current with _ | a
      · rw [(tracked_eq_nil hq.headed).mpr hc] at ht
        cases ht
      · exact ⟨a, rfl⟩
    by_cases ha : a = r.id
    · subst ha
      rw [handleRun_current hns hc]
      by_cases hd : r.isDone = true
      · rw [if_pos hd, if_pos ⟨hc, he.mpr hd⟩]
      · rw [if_neg hd, if_neg fun h => hd (he.mp h.2), if_neg fun h => hd (he.mp h)]
    · have hne : q.current ≠ some r.id := fun h => ha (Option.some.inj (hc.symm.trans h))
      have hm : r.id ∈ q.pending := by
        rw [tracked_eq_cons hc] at ht
        exact (List.mem_cons.mp ht).resolve_left fun h => ha h.symm
      have hnot : ¬ (q.current = some r.id ∧ l.Ended r.id) := fun h => hne h.1
      rw [if_neg hnot, handleRun_behind hns hc ha, if_pos hm]
      simp only [he]

/-- **A tracked run is refreshed**: if it has ended it is tracked no more. -/
theorem refresh_reacts : let out := Scheduler.refresh run (q, l)
    Reacts o v (q, l) out.2 ∧
      out.2.1.tracked = if l.Ended run then q.tracked.erase run else q.tracked := by
  intro out
  have hout : out = _ := refresh_apply hs hq ht
  obtain ⟨a, hc⟩ : ∃ a, q.current = some a := by
    rcases hc : q.current with _ | a
    · rw [(tracked_eq_nil hq.headed).mpr hc] at ht
      cases ht
    · exact ⟨a, rfl⟩
  by_cases he : l.Ended run
  · rw [if_pos he]
    by_cases ha : a = run
    · subst ha
      rw [if_pos ⟨hc, he⟩] at hout
      obtain ⟨hch, hw, htr⟩ := retire_reacts hs hq hc he
      rw [hout, htr, tracked_eq_cons hc, List.erase_cons_head]
      exact ⟨⟨hch, .inl hw⟩, rfl⟩
    · rw [if_neg fun h => ha (Option.some.inj (hc.symm.trans h.1)), if_pos he] at hout
      rw [hout, tracked_leave hc ha]
      exact ⟨⟨.single (.leave q l run a hc ha he), .inr (.of_ledger rfl rfl)⟩, rfl⟩
  · rw [if_neg fun h => he h.2, if_neg he] at hout
    rw [hout, if_neg he]
    exact ⟨.refl _, rfl⟩

/-- Refreshing a run is refused only if it has ended and the run that follows it is gone. -/
theorem refresh_ok (hw : (l.store.workspace? v).isSome)
    (hb : q.current = some run → l.Ended run →
      ∀ b, q.pending.head? = some b → (l.store.run? b).isSome) :
    (Scheduler.refresh run (q, l)).1 = .ok () := by
  rw [refresh_apply hs hq ht]
  by_cases h : q.current = some run ∧ l.Ended run
  · rw [if_pos h]
    exact retire_ok hs hq h.1 h.2 hw (hb h.1 h.2)
  · rw [if_neg h]

theorem refresh_refused (hc : q.current = some run) (he : l.Ended run) {b : String}
    (hb : q.pending.head? = some b) (hr : l.store.run? b = none) :
    (Scheduler.refresh run (q, l)).1 = .error (.runNotFound b) := by
  rw [refresh_apply hs hq ht, if_pos ⟨hc, he⟩]
  exact retire_refused hq hc he hb hr

end Refresh

/-! ## All tracked runs -/

/-- Going on from runs that have ended one after the other comes to a run that is gone. -/
def Obstructed (l : Ledger) : List String → Prop
  | a :: b :: rest => l.Ended a ∧ (l.store.run? b = none ∨ Obstructed l (b :: rest))
  | _ => False

instance Obstructed.decidable (l : Ledger) : ∀ tracked, Decidable (Obstructed l tracked)
  | [] => .isFalse id
  | [_] => .isFalse id
  | _ :: b :: rest =>
    have := Obstructed.decidable l (b :: rest)
    inferInstanceAs (Decidable (_ ∧ _))

theorem obstructed_of_spares {l' : Ledger} (h : l.Spares l') :
    ∀ tracked, Obstructed l' tracked ↔ Obstructed l tracked
  | [] => .rfl
  | [_] => .rfl
  | a :: b :: rest => by
    have hb : l'.store.run? b = none ↔ l.store.run? b = none := by
      rw [← Option.isNone_iff_eq_none, ← Option.isNone_iff_eq_none, ← Option.not_isSome,
        ← Option.not_isSome, h.run? b]
    exact and_congr (h.ended a) (or_congr hb (obstructed_of_spares h (b :: rest)))

/-- The runs of a list that have not ended. -/
def lasting (l : Ledger) (runs : List String) : List String :=
  runs.filter fun run => !decide (l.Ended run)

theorem mem_lasting {runs : List String} : run ∈ lasting l runs ↔ run ∈ runs ∧ ¬ l.Ended run := by
  simp [lasting]

theorem lasting_of_spares {l' : Ledger} (h : l.Spares l') (runs : List String) :
    lasting l' runs = lasting l runs :=
  List.filter_congr fun run _ => by simp only [h.ended run]

/-- What refreshing all tracked runs comes to, when `done` of them were found unfinished and `rest`
remain: the runs that have not ended, unless the way is obstructed. -/
inductive Refreshed (l : Ledger) (done rest : List String) : Except Error Unit → List String → Prop
  /-- All runs are refreshed. -/
  | clear : (done = [] → ¬ Obstructed l rest) →
      Refreshed l done rest (.ok ()) (done ++ lasting l rest)
  /-- A run that is gone has become the current one. -/
  | stuck (e : Error) (before after : List String) (b : String) : done = [] → Obstructed l rest →
      rest = before ++ b :: after → (∀ a ∈ before, l.Ended a) → l.store.run? b = none →
      Refreshed l done rest (.error e) (b :: after)

theorem Refreshed.of_spares {l' : Ledger} {done rest tracked : List String} {res : Except Error Unit}
    (h : l.Spares l') (hr : Refreshed l' done rest res tracked) :
    Refreshed l done rest res tracked := by
  cases hr with
  | clear ho =>
    rw [lasting_of_spares h]
    exact .clear fun hd hob => ho hd ((obstructed_of_spares h rest).mpr hob)
  | stuck e before after b hd ho hsplit he hb =>
    refine .stuck e before after b hd ((obstructed_of_spares h rest).mp ho) hsplit
      (fun a ha => (h.ended a).mp (he a ha)) ?_
    rw [← Option.isNone_iff_eq_none, ← Option.not_isSome, ← h.run? b, hb]
    rfl

theorem Refreshed.cons_ended {done rest tracked : List String} {res : Except Error Unit}
    (h : Refreshed l done rest res tracked) {x : String} (hx : l.Ended x)
    (hb : done = [] → ∀ b, rest.head? = some b → (l.store.run? b).isSome) :
    Refreshed l done (x :: rest) res tracked := by
  cases h with
  | clear ho =>
    have hl : lasting l rest = lasting l (x :: rest) := by simp [lasting, hx]
    rw [hl]
    refine .clear fun hd hob => ?_
    rcases rest with _ | ⟨b, rest⟩
    · exact hob
    · rcases hob.2 with hg | hob
      · simpa [hg] using hb hd b rfl
      · exact ho hd hob
  | stuck e before after b hd ho hsplit he hg =>
    refine .stuck e (x :: before) after b hd ?_ (by rw [hsplit]; rfl) ?_ hg
    · rcases rest with _ | ⟨c, rest⟩
      · exact ho
      · exact ⟨hx, .inr ho⟩
    · exact fun a ha => (List.mem_cons.mp ha).elim (fun h => h ▸ hx) (he a)

theorem Refreshed.cons_lasting {done rest tracked : List String} {res : Except Error Unit} {x : String}
    (h : Refreshed l (done ++ [x]) rest res tracked) (hx : ¬ l.Ended x) :
    Refreshed l done (x :: rest) res tracked := by
  cases h with
  | clear ho =>
    have hl : done ++ [x] ++ lasting l rest = done ++ lasting l (x :: rest) := by
      simp [lasting, hx]
    rw [hl]
    refine .clear fun hd hob => hx ?_
    rcases rest with _ | ⟨b, rest⟩
    · exact hob.elim
    · exact hob.1
  | stuck e before after b hd => simp at hd

/-- **All tracked runs are refreshed**, or the way is obstructed. -/
theorem refresh_all (hs : l.Sound) (hq : q.Fits o v l) (hw : (l.store.workspace? v).isSome)
    {done rest : List String} (ht : q.tracked = done ++ rest) (hd : ∀ a ∈ done, ¬ l.Ended a) :
    let out := (rest.forM Scheduler.refresh) (q, l)
    Reacts o v (q, l) out.2 ∧ Refreshed l done rest out.1 out.2.1.tracked := by
  induction rest generalizing q l done with
  | nil =>
    refine ⟨.refl _, ?_⟩
    change Refreshed l done [] (.ok ()) q.tracked
    rw [ht]
    exact .clear fun _ h => h
  | cons x rest ih =>
    intro out
    have hm : x ∈ q.tracked := by simp [ht]
    have hn : q.tracked.Nodup := hq.nodup
    rw [ht] at hn
    have hxd : x ∉ done := fun h => (List.nodup_append.mp hn).2.2 x h x List.mem_cons_self rfl
    obtain ⟨hre, htr⟩ := refresh_reacts hs hq hm
    obtain ⟨hs', -, hq'⟩ := hre.changes.sound hs hq
    have hsp := Changes.spares hre.changes hs hq
    -- Whatever is left when this run is refreshed, the others are refreshed after it.
    have hrest : ∀ done', (Scheduler.refresh x (q, l)).1 = .ok () →
        (Scheduler.refresh x (q, l)).2.1.tracked = done' ++ rest → (∀ a ∈ done', ¬ l.Ended a) →
        Reacts o v (q, l) out.2 ∧ Refreshed l done' rest out.1 out.2.1.tracked := by
      intro done' hok ht' hd'
      have hout : out = (rest.forM Scheduler.refresh) (Scheduler.refresh x (q, l)).2 :=
        bind_ok (Prod.ext hok rfl)
      obtain ⟨hre', href⟩ := ih hs' hq' ((hsp.workspace? v).trans hw) ht'
        fun a ha h => hd' a ha ((hsp.ended a).mp h)
      rw [hout]
      exact ⟨hre.trans hre' hs hq, Refreshed.of_spares hsp href⟩
    by_cases he : l.Ended x
    · rw [if_pos he, ht, List.erase_append_right _ hxd, List.erase_cons_head] at htr
      have hcur : q.current = some x → done = [] ∧ q.pending = rest := by
        intro hc
        rw [tracked_eq_cons hc] at ht
        rcases done with _ | ⟨y, done⟩
        · exact ⟨rfl, (List.cons.inj ht).2⟩
        · exact absurd ((List.cons.inj ht).1 ▸ List.mem_cons_self) hxd
      by_cases hb : done = [] → ∀ b, rest.head? = some b → (l.store.run? b).isSome
      · have hok := refresh_ok hs hq hm hw fun hc _ => (hcur hc).2.symm ▸ hb (hcur hc).1
        obtain ⟨hre', href⟩ := hrest done hok htr hd
        exact ⟨hre', href.cons_ended he hb⟩
      · push Not at hb
        obtain ⟨rfl, b, hrb, hg⟩ := hb
        obtain ⟨after, rfl⟩ := List.head?_eq_some_iff.mp hrb
        have hc : q.current = some x := by rw [← head?_tracked hq.headed, ht]; rfl
        have hg : l.store.run? b = none := by simpa using hg
        have herr := refresh_refused hs hq hm hc he ((hcur hc).2.symm ▸ rfl) hg
        have hout : out = (.error (.runNotFound b), (Scheduler.refresh x (q, l)).2) :=
          bind_error (Prod.ext herr rfl)
        rw [hout, htr]
        exact ⟨hre, .stuck _ [x] after b rfl ⟨he, .inl hg⟩ rfl
          (fun a ha => List.mem_singleton.mp ha ▸ he) hg⟩
    · rw [if_neg he, ht, List.append_cons] at htr
      have hok := refresh_ok hs hq hm hw fun _ h => absurd h he
      obtain ⟨hre', href⟩ := hrest (done ++ [x]) hok htr fun a ha =>
        (List.mem_append.mp ha).elim (hd a) fun h => List.mem_singleton.mp h ▸ he
      exact ⟨hre', href.cons_lasting he⟩

end Provision.Queue
