import Provision.Proofs.Agent.Watch
import Provision.Proofs.Scheduler.Calls

/-!
# Deletions of runs

A run is deleted in two steps. It is read, and must be done; then what is stored under its identifier is
removed, whatever has happened to it in between.

* `Service.deleteRunAmid`: a deletion, with what others do between its two steps.
* `Ledger.Stir`: what users, schedulers, agents and jobs do; a ledger becomes a later one by it.
* `Service.removeRun_of_ended`: the removal of a run that has ended is a whole deletion, so that a
  deletion is as good as one made at the moment of the removal.
* **`Removals.deletes_done`**: what is deleted was done, and a deletion that fails changes nothing.
-/

namespace Provision

open Identifier (Issued)

namespace Service

variable {id : String} {l : Ledger}

/-! ## The two steps -/

/-- The first step of a deletion: the run must be done. -/
def vet (id : String) : Service Unit := do
  let run ← getRun id
  if !run.isDone then throw (run.refusal "delete")

/-- A deletion in the course of which others bring about another ledger. -/
def deleteRunAmid (id : String) (later : Ledger) : Service Unit := do
  vet id
  set later
  removeRun id

theorem vet_apply (id : String) (l : Ledger) :
    vet id l = match l.store.run? id with
      | none => (.error (.runNotFound id), l)
      | some r => if r.isDone = true then (.ok (), l) else (.error (r.refusal "delete"), l) := by
  have hg := getRun_apply id l
  unfold vet
  rcases hr : l.store.run? id with _ | r
  · rw [hr] at hg
    exact Effect.bind_error hg
  · rw [hr] at hg
    refine (Effect.bind_ok hg).trans ?_
    dsimp only
    cases r.isDone <;> rfl

theorem removeRun_apply (id : String) (l : Ledger) :
    removeRun id l = match l.store.run? id with
      | none => (.error (.runNotFound id), l)
      | some _ => (.ok (), l.post (l.store.keepRuns fun v => v.id != id)
          (Event.deleted .runDeleted id)) := by
  have hany : (l.store.runs.any fun r => r.id == id) = (l.store.run? id).isSome :=
    List.isSome_find?.symm
  unfold removeRun
  rw [commit_unit_bind, Store.deleteRun, hany]
  cases l.store.run? id <;> rfl

theorem deleteRun_eq (id : String) : deleteRun id = vet id >>= fun _ => removeRun id := by
  unfold deleteRun vet
  rw [bind_assoc]
  refine bind_congr fun run => ?_
  cases run.isDone <;> rfl

theorem vet_snd (id : String) (l : Ledger) : (vet id l).2 = l := by
  rw [vet_apply]
  split
  · rfl
  · split_ifs <;> rfl

/-- A deletion is refused by its first step, or comes down to the second one on the later ledger. -/
theorem deleteRunAmid_cases (id : String) (l later : Ledger) :
    (∃ e, vet id l = (.error e, l) ∧ deleteRunAmid id later l = (.error e, l)) ∨
      vet id l = (.ok (), l) ∧ deleteRunAmid id later l = removeRun id later := by
  unfold deleteRunAmid
  obtain ⟨e, hv, h⟩ | ⟨_, hv, h⟩ :=
    Effect.bind_cases (vet id) (fun _ => set later >>= fun _ => removeRun id) l
  · rw [vet_snd] at hv h
    exact .inl ⟨e, hv, h⟩
  · rw [vet_snd] at hv
    exact .inr ⟨hv, h.trans (Effect.bind_ok rfl)⟩

theorem deleteRunAmid_self (id : String) (l : Ledger) : deleteRunAmid id l l = deleteRun id l := by
  rw [deleteRun_eq]
  obtain ⟨e, hv, h⟩ | ⟨hv, h⟩ := deleteRunAmid_cases id l l
  · exact h.trans (Effect.bind_error hv).symm
  · exact h.trans (Effect.bind_ok (f := fun _ => removeRun id) hv).symm

theorem exists_of_vet (h : (vet id l).1 = .ok ()) :
    ∃ r, l.store.run? id = some r ∧ r.isDone = true := by
  rw [vet_apply] at h
  rcases hr : l.store.run? id with _ | r
  · rw [hr] at h
    cases h
  · rw [hr] at h
    dsimp only at h
    split_ifs at h with hd
    exact ⟨r, rfl, hd⟩

/-- **The removal of a run that has ended is a whole deletion.** -/
theorem removeRun_of_ended (h : l.Ended id) : removeRun id l = deleteRun id l := by
  rw [deleteRun_eq]
  have hv := vet_apply id l
  rcases hr : l.store.run? id with _ | r
  · rw [hr] at hv
    rw [Effect.bind_error hv, removeRun_apply, hr]
  · rw [hr] at hv
    dsimp only at hv
    rw [if_pos (h r (Store.run?_mem hr) (Store.run?_id hr))] at hv
    exact (Effect.bind_ok (f := fun _ => removeRun id) hv).symm

end Service

/-! ## What others do -/

/-- What somebody does to a ledger, be it with several calls: users, schedulers, agents and jobs,
whatever state these are in. -/
inductive Ledger.Stir (l : Ledger) : Ledger → Prop
  | deed (d : Deed) : Stir l (d.on l)
  | dispatch (e : Event) (roster : Roster) : Stir l (Scheduler.dispatch e (roster, l)).2.2
  | seed (roster : Roster) : Stir l (Scheduler.seed (roster, l)).2.2
  | handle (e : Event) (a : Agent) : Stir l (Agent.handle e (a, l)).2.2
  | rescan (a : Agent) : Stir l (Agent.rescan (a, l)).2.2
  | join (a : Agent) {j : Job} : j ∈ a.jobs → j.hasEnded = true →
      Stir l (Agent.join j.number (a, l)).2.2
  | job {j : Job} {works : List Work} {t : Job × Ledger} : Job.Goes (j, l) works t → Stir l t.2

theorem Ledger.Stir.later {l l' : Ledger} (h : l.Stir l') : l.Later l' := by
  cases h with
  | deed d => exact .deed d l
  | dispatch e roster => exact .of_moves (Scheduler.dispatch_moves e (roster, l))
  | seed roster => exact .of_moves (Scheduler.seed_moves (roster, l))
  | handle e a => exact Agent.handle_later e a l
  | rescan a => exact Agent.rescan_later a l
  | join a hj he => exact Agent.join_later hj he l
  | job hg => exact .of_moves hg.moves

/-! ## Deletions under way -/

/-- A ledger, with the runs that deletions have found done and not removed yet. -/
structure Removals where
  ledger : Ledger := {}
  vetted : List String := []

namespace Removals

/-- What happens around deletions: something else, or the first or second step of one of them. -/
inductive Step (w : Removals) : Removals → Prop
  | stir {l : Ledger} : w.ledger.Stir l → Step w { w with ledger := l }
  | vet (id : String) : (Service.vet id w.ledger).1 = .ok () →
      Step w { w with vetted := id :: w.vetted }
  | remove (id : String) : id ∈ w.vetted →
      Step w { ledger := (Service.removeRun id w.ledger).2, vetted := w.vetted.erase id }

/-- Any number of steps. -/
abbrev Steps : Removals → Removals → Prop :=
  Relation.ReflTransGen Step

/-- What comes about from an empty store. -/
def Reachable (w : Removals) : Prop :=
  Steps {} w

variable {w w' : Removals} {id : String}

/-- What holds at any time: a run that was found done has ended. -/
structure Sound (w : Removals) : Prop where
  later : Ledger.Later {} w.ledger
  issued : ∀ id ∈ w.vetted, Issued Run.stem w.ledger.supply id
  ended : ∀ id ∈ w.vetted, w.ledger.Ended id

theorem Sound.truthful (h : w.Sound) : w.ledger.Truthful :=
  Ledger.Truthful.empty.later h.later

theorem Sound.of_vet (h : w.Sound) (hv : (Service.vet id w.ledger).1 = .ok ()) :
    Issued Run.stem w.ledger.supply id ∧ w.ledger.Ended id := by
  obtain ⟨r, hr, hd⟩ := Service.exists_of_vet hv
  have ho := h.truthful.ordered
  obtain ⟨hm, hid⟩ := ho.run?_eq_some_iff.mp hr
  refine ⟨hid ▸ ho.issuedRuns r hm, fun x hx hxid => ?_⟩
  exact ho.run_eq hx hm (hxid.trans hid.symm) ▸ hd

theorem Sound.on_later (h : w.Sound) {l : Ledger} (hl : w.ledger.Later l) {vetted : List String}
    (hs : vetted ⊆ w.vetted) : Sound ⟨l, vetted⟩ where
  later := Relation.ReflTransGen.trans h.later hl
  issued id hm := (h.issued id (hs hm)).mono hl.supply
  ended id hm := hl.ended (h.issued id (hs hm)) (h.ended id (hs hm))

/-- **Every step goes on to a later ledger**, the removals included. -/
theorem Step.later (hs : Step w w') (h : w.Sound) : w.ledger.Later w'.ledger := by
  cases hs with
  | stir hl => exact hl.later
  | vet => exact .refl
  | remove id hm =>
    rw [Service.removeRun_of_ended (h.ended id hm)]
    exact .deed (.request (.deleteRun id)) w.ledger

theorem Step.sound (hs : Step w w') (h : w.Sound) : w'.Sound := by
  have hl := hs.later h
  cases hs with
  | stir _ => exact h.on_later hl (List.Subset.refl _)
  | vet id hv =>
    obtain ⟨hi, he⟩ := h.of_vet hv
    exact ⟨h.later, List.forall_mem_cons.mpr ⟨hi, h.issued⟩, List.forall_mem_cons.mpr ⟨he, h.ended⟩⟩
  | remove id _ => exact h.on_later hl List.erase_subset

theorem Steps.sound (hs : Steps w w') (h : w.Sound) : w'.Sound ∧ w.ledger.Later w'.ledger := by
  induction hs with
  | refl => exact ⟨h, .refl⟩
  | tail _ hs ih => exact ⟨hs.sound ih.1, Relation.ReflTransGen.trans ih.2 (hs.later ih.1)⟩

theorem Reachable.sound (h : w.Reachable) : w.Sound :=
  (Steps.sound h ⟨.refl, nofun, nofun⟩).1

/-- **Only what is done is deleted.** Whatever happens before a deletion and between its two steps, other
deletions included: if it succeeds, the run was done when it was removed, and nothing but this run is
removed; if it fails, at either step, it has removed nothing and announced nothing. -/
theorem deletes_done (h : w.Reachable) (hs : Steps w w') (id : String) :
    let out := Service.deleteRunAmid id w'.ledger w.ledger
    (out.1 = .ok () → ∃ r, w'.ledger.store.run? id = some r ∧ r.isDone = true ∧
      (∀ x, x ∈ out.2.store.runs ↔ x ∈ w'.ledger.store.runs ∧ x ≠ r) ∧
        out.2.announced = w'.ledger.announced ++ [Event.deleted .runDeleted id]) ∧
      ∀ e, out.1 = .error e → (Service.vet id w.ledger).1 = .error e ∧ out.2 = w.ledger ∨
        e = .runNotFound id ∧ out.2 = w'.ledger := by
  intro out
  obtain ⟨e, hv, ho⟩ | ⟨hv, ho⟩ := Service.deleteRunAmid_cases id w.ledger w'.ledger
  · rw [show out = (.error e, w.ledger) from ho, hv]
    exact ⟨nofun, fun _ he => .inl ⟨he, rfl⟩⟩
  obtain ⟨hsound', hl⟩ := Steps.sound hs h.sound
  have hord := hsound'.truthful.ordered
  obtain ⟨hi, he⟩ := h.sound.of_vet (congrArg Prod.fst hv)
  have hrem := Service.removeRun_apply id w'.ledger
  rcases hr : w'.ledger.store.run? id with _ | r
  · rw [hr] at hrem
    rw [show out = _ from ho.trans hrem]
    exact ⟨nofun, fun _ he => .inr ⟨(Except.error.inj he).symm, rfl⟩⟩
  · rw [hr] at hrem
    rw [show out = _ from ho.trans hrem]
    obtain ⟨hm, hid⟩ := hord.run?_eq_some_iff.mp hr
    refine ⟨fun _ => ⟨r, rfl, hl.ended hi he r hm hid, fun x => ?_, rfl⟩, nofun⟩
    refine List.mem_filter.trans (and_congr_right fun hx => ?_)
    rw [bne_iff_ne]
    exact not_congr ⟨fun hxid => hord.run_eq hx hm (hxid.trans hid.symm), fun hxr => hxr ▸ hid⟩

theorem steps_after (w : Removals) (calls : List Request) :
    Steps w { w with ledger := w.ledger.after calls } := by
  induction calls generalizing w with
  | nil => exact .refl
  | cons c calls ih => exact .head (.stir (.deed (.request c))) (ih _)

/-- The first run is canceled. -/
def canceled : Removals where
  ledger := Ledger.firstRun.after [.cancel (Identifier.fresh Run.stem 1)]

/-- Another deletion has found the first run done, and the run is canceled by force. -/
def forced : Removals where
  ledger := ((Deed.tick ⟨60, 0⟩).on canceled.ledger).after [.forceCancel (Identifier.fresh Run.stem 1)]
  vetted := [Identifier.fresh Run.stem 1]

theorem reachable_canceled : canceled.Reachable :=
  steps_after {} [.createOrganization "acme",
    .createWorkspace { name := "prod", organization := "acme" },
    .createRun { workspace := Identifier.fresh Workspace.stem 0 },
    .cancel (Identifier.fresh Run.stem 1)]

theorem steps_forced : Steps canceled forced :=
  (Relation.ReflTransGen.head (.vet (Identifier.fresh Run.stem 1) (by decide +kernel))
    (.single (.stir (.deed (.tick ⟨60, 0⟩))))).trans (steps_after _ _)

/-- The run is deleted when it has been canceled by force in the meantime; when the other deletion was
faster, this one fails and changes nothing. -/
theorem deletes_done_forced :
    let run := Identifier.fresh Run.stem 1
    let gone := (Service.removeRun run forced.ledger).2
    (∃ r, forced.ledger.store.run? run = some r ∧ r.isDone = true ∧ r.status = .forceCanceled ∧
      ∀ x, x ∈ (Service.deleteRunAmid run forced.ledger canceled.ledger).2.store.runs ↔
        x ∈ forced.ledger.store.runs ∧ x ≠ r) ∧
      (Service.deleteRunAmid run gone canceled.ledger).1 = .error (.runNotFound run) ∧
      (Service.deleteRunAmid run gone canceled.ledger).2 = gone := by
  intro run gone
  obtain ⟨hok, -⟩ := deletes_done reachable_canceled steps_forced run
  obtain ⟨r, hr, hd, hruns, -⟩ := hok (by decide +kernel)
  have hs : ∀ x, forced.ledger.store.run? run = some x → x.status = .forceCanceled := by
    decide +kernel
  obtain ⟨-, herror⟩ := deletes_done reachable_canceled
    (steps_forced.tail (.remove run (List.mem_singleton_self run))) run
  have hgone : (Service.deleteRunAmid run gone canceled.ledger).1 = .error (.runNotFound run) := by
    decide +kernel
  have hvet : (Service.vet run canceled.ledger).1 = .ok () := by decide +kernel
  refine ⟨⟨r, hr, hd, hs r hr, hruns⟩, hgone, ((herror _ hgone).resolve_left fun h => ?_).2⟩
  cases hvet.symm.trans h.1

end Removals

end Provision
