import Mathlib.Logic.Relation
import Provision.Proofs.Broker.Arrival
import Provision.Proofs.Ledger.Lock
import Provision.Proofs.Scheduler.World

/-!
# Locks between a scheduler and others

A `Journal` is a ledger as the record of all that was done to it, by the scheduler or by others. Before
each call of the scheduler the others may do something, so that its steps are interleaved with theirs in
every possible way.

* `World.journal`: the services on a journal. Each call does what the service does (`Journal.mirrors`).
* `Journal.lawful`: of its own accord a scheduler gives back a lock for an ended run only.
* `Journal.Reachable.lock_respected`: no lock is taken from a user, nor from an unfinished run by the
  scheduler.
-/

namespace Provision

open Identifier (Issued issued_fresh not_issued_fresh)

/-- An entry of a record: what was done, and whether the scheduler did it. -/
structure Entry where
  isOwn : Bool
  deed : Deed
  deriving DecidableEq, Repr

/-- The run on whose behalf a lock is asked for. -/
def Entry.locker? (e : Entry) : Option String :=
  match e.deed with
  | .request (.lock _ (.run run)) => some run
  | _ => none

namespace Ledger

/-- The ledger that a record leads to. -/
def replay (record : List Entry) : Ledger :=
  record.foldl (fun l e => e.deed.on l) {}

variable {record : List Entry} {e : Entry}

theorem replay_concat (record : List Entry) (e : Entry) :
    replay (record ++ [e]) = e.deed.on (replay record) := by
  rw [replay, List.foldl_append]
  rfl

theorem ordered_replay (record : List Entry) :
    (replay record).store.Ordered (replay record).supply := by
  induction record using List.reverseRecOn with
  | nil => exact .empty
  | append_singleton record e ih =>
    rw [replay_concat]
    exact e.deed.ordered ih

theorem locker_of_lock {w : Workspace} (hw : w ∈ (replay record).store.workspaces) {run : String}
    (hl : w.lock = some (.run run)) : run ∈ record.filterMap Entry.locker? := by
  induction record using List.reverseRecOn generalizing w with
  | nil => cases hw
  | append_singleton record e ih =>
    rw [List.filterMap_append, List.mem_append]
    obtain ⟨isOwn, now | c⟩ := e
    · rw [replay_concat] at hw
      exact .inl (ih hw hl)
    · rw [replay_concat] at hw
      rcases (c.effect _).lock_cases hw hl with ⟨v, hv, -, hlv⟩ | rfl
      · exact .inl (ih hv hlv)
      · exact .inr (List.mem_singleton_self run)

theorem knows_of_announced {x : Run} {e : Event} (he : e ∈ (replay record).announced)
    (hx : e.payload = .run x) : (replay record).Knows x := by
  induction record using List.reverseRecOn with
  | nil => cases he
  | append_singleton record d ih =>
    have ho := ordered_replay (record ++ [d])
    rw [replay_concat] at he ho ⊢
    rcases d.deed.announced_run he hx with he | hm
    · exact (ih he).deed d.deed
    · exact knows_of_mem ho hm

theorem Knows.replay {x : Run} {before : List Entry} (h : (replay before).Knows x)
    (after : List Entry) : (Ledger.replay (before ++ after)).Knows x := by
  induction after using List.reverseRecOn with
  | nil => rwa [List.append_nil]
  | append_singleton after e ih =>
    rw [← List.append_assoc, replay_concat]
    exact ih.deed e.deed

end Ledger

open Ledger (replay replay_concat)

/-- A ledger as the record of all that was done to it. -/
structure Journal where
  /-- What was done, oldest first. -/
  record : List Entry := []
  /-- What others are about to do, before each of the coming calls of the scheduler. -/
  others : List (List Deed) := []

namespace Journal

/-- The ledger. -/
def ledger (j : Journal) : Ledger :=
  replay j.record

/-- Whether a run is about to be created under an identifier that was used to lock before. -/
def collides (record : List Entry) : Deed → Bool
  | .request (.createRun _) =>
    (record.filterMap Entry.locker?).contains (Identifier.fresh Run.stem (replay record).supply)
  | _ => false

/-- Record a deed. -/
def note (j : Journal) (isOwn : Bool) (deed : Deed) : Journal :=
  { j with record := j.record ++ [⟨isOwn, deed⟩] }

/-- Let others do something. An identifier that was used to lock is never given to a new run. -/
def tolerate (j : Journal) (d : Deed) : Journal :=
  if collides j.record d then j else j.note false d

/-- Let the others do what they are about to do. -/
def interrupt (j : Journal) : Journal :=
  match j.others with
  | [] => j
  | deeds :: rest => deeds.foldl tolerate { j with others := rest }

/-- A call that changes nothing. -/
def read {α : Type} (x : Service α) : ExceptT Error (StateM Journal) α :=
  fun j =>
    let j := j.interrupt
    ((x j.ledger).1, j)

/-- A call that is a request. -/
def act {α : Type} (c : Request) (x : Service α) : ExceptT Error (StateM Journal) α :=
  fun j =>
    let j := j.interrupt
    ((x j.ledger).1, j.note true (.request c))

end Journal

/-- The services on a journal. -/
def World.journal : World Journal where
  getRun id := Journal.read (Service.getRun id)
  getWorkspace id := Journal.read (Service.getWorkspace id)
  enqueuePlan run := Journal.act (.enqueuePlan run) (Service.enqueuePlan run)
  lockWorkspace id holder := Journal.act (.lock id holder) (Service.lockWorkspace id holder)
  unlockWorkspace id requester force :=
    Journal.act (.unlock id requester force) (Service.unlockWorkspace id requester force)
  setCurrentRun id run := Journal.act (.setCurrentRun id run) (Service.setCurrentRun id run)
  listOrganizations := Journal.read Service.listOrganizations
  listWorkspaces organization := Journal.read (Service.listWorkspaces organization)
  listRuns f := Journal.read (Service.listRuns f)

namespace Journal

/-! ## What a call does to the ledger -/

/-- A call does what a service does, once the others had their turn. -/
def Mirrors {α : Type} (x : ExceptT Error (StateM Journal) α) (y : Service α) : Prop :=
  ∀ j, (x j).1 = (y j.interrupt.ledger).1 ∧ (x j).2.ledger = (y j.interrupt.ledger).2

theorem mirrors_read {α : Type} {y : Service α} (hy : ∀ l, (y l).2 = l) : Mirrors (read y) y :=
  fun _ => ⟨rfl, (hy _).symm⟩

theorem mirrors_act {α : Type} {c : Request} {y : Service α}
    (hc : c.perform = do let _ ← y) : Mirrors (act c y) y := by
  refine fun j => ⟨rfl, (replay_concat _ _).trans ?_⟩
  change (c.perform _).2 = _
  rw [hc]
  exact Effect.snd_discard y _

/-- **The world of a journal is that of the services**, but for what the others do. -/
theorem mirrors :
    (∀ id, Mirrors (World.journal.getRun id) (World.services.getRun id)) ∧
      (∀ id, Mirrors (World.journal.getWorkspace id) (World.services.getWorkspace id)) ∧
      (∀ run, Mirrors (World.journal.enqueuePlan run) (World.services.enqueuePlan run)) ∧
      (∀ id holder, Mirrors (World.journal.lockWorkspace id holder)
        (World.services.lockWorkspace id holder)) ∧
      (∀ id requester force, Mirrors (World.journal.unlockWorkspace id requester force)
        (World.services.unlockWorkspace id requester force)) ∧
      (∀ id run, Mirrors (World.journal.setCurrentRun id run)
        (World.services.setCurrentRun id run)) ∧
      Mirrors World.journal.listOrganizations World.services.listOrganizations ∧
      (∀ o, Mirrors (World.journal.listWorkspaces o) (World.services.listWorkspaces o)) ∧
      ∀ f, Mirrors (World.journal.listRuns f) (World.services.listRuns f) :=
  ⟨fun id => mirrors_read (Service.getRun_snd id), fun id => mirrors_read (Service.getWorkspace_snd id),
    fun _ => mirrors_act rfl, fun _ _ => mirrors_act rfl, fun _ _ _ => mirrors_act rfl,
    fun _ _ => mirrors_act rfl, mirrors_read fun _ => rfl, fun _ => mirrors_read fun _ => rfl,
    fun _ => mirrors_read fun _ => rfl⟩

/-! ## What a call does to the record -/

/-- How a record grows while a scheduler is at work. -/
inductive Proper (record : List Entry) : Entry → Prop
  | other (d : Deed) : collides record d = false → Proper record ⟨false, d⟩
  | enqueuePlan (run : String) : Proper record ⟨true, .request (.enqueuePlan run)⟩
  | setCurrentRun (v run : String) : Proper record ⟨true, .request (.setCurrentRun v run)⟩
  | lock (v run : String) : Proper record ⟨true, .request (.lock v (.run run))⟩
  /-- Only an ended run gives back a lock. -/
  | unlock (v run : String) : (replay record).Ended run →
      Proper record ⟨true, .request (.unlock v (.run run) false)⟩

/-- The record grew by proper entries. -/
def Grown : List Entry → List Entry → Prop :=
  Relation.ReflTransGen fun record record' => ∃ e, Proper record e ∧ record' = record ++ [e]

/-- Somebody named the run, or could have. -/
def Used (run : String) (record : List Entry) : Prop :=
  Issued Run.stem (replay record).supply run ∨ run ∈ record.filterMap Entry.locker?

/-- A run that is used has ended. -/
def Ended (run : String) (record : List Entry) : Prop :=
  Used run record ∧ (replay record).Ended run

variable {record record' : List Entry} {e : Entry} {run : String} {j j' : Journal}

theorem Used.concat (h : Used run record) (e : Entry) : Used run (record ++ [e]) := by
  unfold Used
  rw [replay_concat, List.filterMap_append]
  exact h.imp (Identifier.Issued.mono · (e.deed.supply _)) (List.mem_append_left _)

theorem Ended.concat (h : Ended run record) (he : Proper record e) : Ended run (record ++ [e]) := by
  refine ⟨h.1.concat e, fun r' hr' hid => ?_⟩
  rw [replay_concat] at hr'
  rcases e.deed.run_of hr' with ⟨r, hr, hp⟩ | ⟨⟨request, hd⟩, hf⟩
  · exact hp.done (h.2 r hr (hp.id.symm.trans hid))
  · cases he with
    | other d hn =>
      -- The new run has an identifier that nobody used.
      obtain rfl : d = .request (.createRun request) := hd
      have hrun : run = Identifier.fresh Run.stem (replay record).supply := hid.symm.trans hf
      subst hrun
      rcases h.1 with hi | hm
      · exact absurd hi not_issued_fresh
      · rw [collides, List.contains_iff_mem.mpr hm] at hn
        cases hn
    | _ => cases hd

theorem Grown.used (h : Grown record record') (hu : Used run record) : Used run record' := by
  induction h with
  | refl => exact hu
  | tail _ hs ih =>
    obtain ⟨e, -, rfl⟩ := hs
    exact ih.concat e

theorem Grown.ended (h : Grown record record') (hu : Ended run record) : Ended run record' := by
  induction h with
  | refl => exact hu
  | tail _ hs ih =>
    obtain ⟨e, he, rfl⟩ := hs
    exact ih.concat he

theorem grown_foldl (deeds : List Deed) (j : Journal) :
    Grown j.record (deeds.foldl tolerate j).record := by
  induction deeds generalizing j with
  | nil => exact .refl
  | cons d deeds ih =>
    have hd : Grown j.record (j.tolerate d).record := by
      unfold tolerate
      split_ifs with hc
      · exact .refl
      · exact .single ⟨_, .other d (by simpa using hc), rfl⟩
    exact Relation.ReflTransGen.trans hd (ih (j.tolerate d))

theorem grown_interrupt (j : Journal) : Grown j.record j.interrupt.record := by
  unfold interrupt
  split
  · exact .refl
  · next deeds rest _ => exact grown_foldl deeds { j with others := rest }

theorem grown_act {α : Type} {c : Request} (x : Service α) (j : Journal)
    (hc : Proper j.interrupt.record ⟨true, .request c⟩) : Grown j.record (act c x j).2.record :=
  (grown_interrupt j).tail ⟨_, hc, rfl⟩

theorem read_eq {α : Type} {x : Service α} {a : Except Error α} (h : read x j = (a, j')) :
    (x j'.ledger).1 = a ∧ j' = j.interrupt := by
  obtain ⟨rfl, rfl⟩ := Prod.mk.inj h
  exact ⟨rfl, rfl⟩

/-! ## What a scheduler does to the record -/

theorem gone (id : String) {l : Ledger} {e : Error} (h : (Service.getRun id l).1 = .error e) :
    l.store.run? id = none := by
  rw [Service.getRun_apply] at h
  rcases hr : l.store.run? id with _ | x
  · rfl
  · rw [hr] at h
    cases h

/-- **A scheduler gives back a lock for an ended run only**, and others may do anything meanwhile. -/
theorem lawful : World.journal.Laws (fun j j' => Grown j.record j'.record)
    (fun run j => Used run j.record) (fun run j => Ended run j.record) where
  refl j := .refl
  trans h h' := Relation.ReflTransGen.trans h h'
  used h hu := Grown.used h hu
  ended h hu := Grown.ended h hu
  getRun id j := grown_interrupt j
  found {id j j' r} h hu := by
    obtain ⟨hr, -⟩ := read_eq h
    have hr := Service.run?_of_getRun hr
    have ho := Ledger.ordered_replay j'.record
    have hk := Ledger.knows_of_mem ho (Store.run?_mem hr)
    obtain rfl := Store.run?_id hr
    exact ⟨rfl, fun hd => ⟨hu, hk.ended hd⟩⟩
  gone {id j j' e} h hu _ := ⟨hu, Ledger.ended_of_gone (gone id (read_eq h).1)⟩
  getWorkspace id j := grown_interrupt j
  enqueuePlan {run j} _ := grown_act _ j (.enqueuePlan run)
  lockWorkspace v run j _ := grown_act _ j (.lock v run)
  unlockWorkspace v run j h := grown_act _ j (.unlock v run ((grown_interrupt j).ended h).2)
  setCurrentRun v run j := grown_act _ j (.setCurrentRun v run)
  listOrganizations j := grown_interrupt j
  listWorkspaces o j := grown_interrupt j
  holders {o j j' ws} h w hw run hl := by
    obtain ⟨hws, -⟩ := read_eq h
    have hm : w ∈ j'.ledger.store.workspacesOf o := Except.ok.inj hws ▸ hw
    exact .inr (Ledger.locker_of_lock (List.mem_of_mem_filter hm) hl)
  listRuns f j := grown_interrupt j
  listed {f j j' runs} h r hr := by
    obtain ⟨hruns, -⟩ := read_eq h
    have hm : r ∈ j'.ledger.store.listRuns f := Except.ok.inj hruns ▸ hr
    obtain ⟨hm, ha⟩ := List.mem_filter.mp hm
    exact ⟨ha, .inl ((Ledger.ordered_replay j'.record).issuedRuns r hm)⟩

/-! ## What happens in the course of time -/

/-- An event that a scheduler may hear of: it was announced, be it long ago, or a broker loaded it when
another node told of it. -/
def Heard (j : Journal) (e : Event) : Prop :=
  ∃ before, before <+: j.record ∧ (e ∈ (replay before).announced ∨
    ∃ (b : Broker) (n : Notification), b.eventOf? (replay before).store n = some e)

/-- What happens: somebody does something, or the scheduler takes a step while others do something
between its calls, or another scheduler takes over. -/
inductive Turn (t : Roster × Journal) : Roster × Journal → Prop
  | other (d : Deed) : Turn t (t.1, t.2.note false d)
  | dispatch (e : Event) (others : List (List Deed)) : t.2.Heard e →
      Turn t (World.journal.dispatch e (t.1, { t.2 with others })).2
  | seed (others : List (List Deed)) : Turn t (World.journal.seed (t.1, { t.2 with others })).2
  | replace : Turn t ([], t.2)

/-- What comes about in this way. -/
def Reachable (t : Roster × Journal) : Prop :=
  Relation.ReflTransGen Turn ([], {}) t

variable {t t' : Roster × Journal} {x : Run}

theorem mem_of_eventOf? {b : Broker} {s : Store} {n : Notification} {e : Event}
    (h : b.eventOf? s n = some e) (hx : e.payload = .run x) : x ∈ s.runs := by
  unfold Broker.eventOf? at h
  by_cases hs : n.sender = b.id
  · rw [if_pos hs] at h
    cases h
  rw [if_neg hs] at h
  rcases ht : EventType.ofParts? n.relation n.action with _ | type
  · rw [ht] at h
    cases h
  rw [ht] at h
  dsimp only at h
  split_ifs at h
  · cases h
    cases hx
  rcases hl : s.load n.relation n.id with e' | payload
  · rw [hl] at h
    cases h
  · rw [hl] at h
    cases h
    obtain rfl : payload = .run x := hx
    exact Store.holds_of_load hl

theorem Heard.knows {e : Event} (h : j.Heard e) (hx : e.payload = .run x) : j.ledger.Knows x := by
  obtain ⟨before, ⟨after, ha⟩, he⟩ := h
  have hk : (replay before).Knows x := by
    rcases he with he | ⟨b, n, he⟩
    · exact Ledger.knows_of_announced he hx
    · exact Ledger.knows_of_mem (Ledger.ordered_replay before) (mem_of_eventOf? he hx)
  have hl : j.ledger = replay (before ++ after) := by rw [ha]; rfl
  exact hl ▸ hk.replay after

theorem Heard.told {e : Event} (h : j.Heard e) :
    Backend.Laws.Told (fun run j => Used run j.record) (fun run j => Ended run j.record) e j := by
  intro x hx
  have hk := h.knows hx
  exact ⟨.inl hk.issued, fun hd => ⟨.inl hk.issued, hk.ended hd⟩⟩

/-- Whatever the scheduler did was proper. -/
def Scrupulous (record : List Entry) : Prop :=
  ∀ before e, before ++ [e] <+: record → e.isOwn = true → Proper before e

/-- What holds at any time. -/
structure Sane (t : Roster × Journal) : Prop where
  known : World.Laws.Known (fun run j => Used run j.record) t
  scrupulous : Scrupulous t.2.record

theorem Grown.scrupulous (h : Grown record record') (hs : Scrupulous record) :
    Scrupulous record' := by
  induction h with
  | refl => exact hs
  | tail _ hs ih =>
    obtain ⟨x, hx, rfl⟩ := hs
    intro before e hp hi
    rcases List.prefix_concat_iff.mp hp with he | hp
    · obtain ⟨rfl, hex⟩ := List.append_inj' he rfl
      exact List.singleton_inj.mp hex ▸ hx
    · exact ih before e hp hi

theorem Turn.sane (hm : Turn t t') (h : Sane t) : Sane t' := by
  cases hm with
  | other d =>
    refine ⟨fun o v q hq run hr => (h.known o v q hq run hr).concat _, fun before e hp hi => ?_⟩
    rcases List.prefix_concat_iff.mp hp with he | hp
    · obtain ⟨-, he⟩ := List.append_inj' he rfl
      rw [List.singleton_inj.mp he] at hi
      cases hi
    · exact h.scrupulous before e hp hi
  | dispatch e others he =>
    obtain ⟨hg, hk⟩ := lawful.dispatch (t := (t.1, { t.2 with others })) he.told h.known
    exact ⟨hk, hg.scrupulous h.scrupulous⟩
  | seed others =>
    obtain ⟨hg, hk⟩ := lawful.seed (t.1, { t.2 with others }) h.known
    exact ⟨hk, hg.scrupulous h.scrupulous⟩
  | replace => exact ⟨fun o v q hq => (by cases hq), h.scrupulous⟩

theorem Reachable.sane (h : Reachable t) : Sane t := by
  induction h with
  | refl =>
    refine ⟨fun o v q hq => (by cases hq), fun before e hp => ?_⟩
    exact absurd (List.prefix_nil.mp hp) (by simp)
  | tail _ hm ih => exact hm.sane ih

/-- **What a scheduler does ousts no user**, and no run that has not ended. -/
theorem Proper.ousts (h : Proper record e) (hi : e.isOwn = true) {c : Request}
    (hc : e.deed = .request c) {l : Ledger} {v : String} {holder : Holder}
    (ho : c.Ousts l v holder) :
    ∃ run, holder = .run run ∧ c = .unlock v (.run run) false ∧ (replay record).Ended run := by
  cases h with
  | other => cases hi
  | enqueuePlan | setCurrentRun | lock =>
    cases hc
    cases ho
  | unlock v' run he =>
    cases hc
    cases ho
    exact ⟨run, rfl, rfl, he⟩

theorem holder?_concat (v : String) {holder : Holder} (h : (replay record).holder? v = some holder) :
    (replay (record ++ [e])).holder? v = some holder ∨
      ∃ c, e.deed = .request c ∧ c.Ousts (replay record) v holder := by
  rw [replay_concat]
  rcases hd : e.deed with now | c
  · exact .inl h
  · exact ((c.effect _).holder?_kept (Ledger.ordered_replay record) h).imp_right fun ho => ⟨c, rfl, ho⟩

/-- **No lock is taken from a user, nor from an unfinished run by the scheduler.** A user who holds the
lock of a workspace keeps it until somebody else than a scheduler forces it open, or gives it back for
the user, or deletes the workspace. When a scheduler changes the lock of a run, that run has ended, and
the scheduler asked in its name. -/
theorem Reachable.lock_respected (h : Reachable t) (v : String) :
    (∀ before during user, before ++ during <+: t.2.record →
      (replay before).holder? v = some (.user user) →
        (replay (before ++ during)).holder? v = some (.user user) ∨
          ∃ d e c, d ++ [e] <+: during ∧ (replay (before ++ d)).holder? v = some (.user user) ∧
            e.isOwn = false ∧ e.deed = .request c ∧
              c.Ousts (replay (before ++ d)) v (.user user)) ∧
      ∀ before e run, before ++ [e] <+: t.2.record → e.isOwn = true →
        (replay before).holder? v = some (.run run) →
          (replay (before ++ [e])).holder? v ≠ some (.run run) →
            e.deed = .request (.unlock v (.run run) false) ∧ (replay before).Ended run := by
  have hown := h.sane.scrupulous
  refine ⟨fun before during user hp hl => ?_, fun before e run hp hi hl hn => ?_⟩
  · induction during using List.reverseRecOn with
    | nil => exact .inl (by rwa [List.append_nil])
    | append_singleton during e ih =>
      rw [← List.append_assoc] at hp ⊢
      rcases ih ((List.prefix_append _ _).trans hp) with hu | ⟨d, x, c, hd, hx⟩
      · refine (holder?_concat v hu).imp_right fun ⟨c, hc, ho⟩ => ?_
        refine ⟨during, e, c, List.prefix_rfl, hu, ?_, hc, ho⟩
        by_contra hi
        obtain ⟨run, hr, -⟩ :=
          (hown _ e hp (by simpa using hi)).ousts (by simpa using hi) hc ho
        cases hr
      · exact .inr ⟨d, x, c, hd.trans (List.prefix_append _ _), hx⟩
  · obtain ⟨c, hc, ho⟩ := (holder?_concat v hl).resolve_left hn
    obtain ⟨run', hr, rfl, he⟩ := (hown before e hp hi).ousts hi hc ho
    cases hr
    exact ⟨hc, he⟩

/-- The record of the first run of a workspace. -/
def firstRun : Journal where
  record := [⟨false, .request (.createOrganization "acme")⟩,
    ⟨false, .request (.createWorkspace { name := "prod", organization := "acme" })⟩,
    ⟨false, .request (.createRun { workspace := Identifier.fresh Workspace.stem 0 })⟩]

/-- The event announced last. -/
def latest (j : Journal) : Event :=
  j.ledger.announced.getLastD (Event.deleted .runDeleted "")

/-- The run was admitted, and then canceled. -/
def canceledRun : Roster × Journal :=
  let t := (World.journal.dispatch firstRun.latest ([], { firstRun with others := [] })).2
  (t.1, t.2.note false (.request (.cancel (Identifier.fresh Run.stem 1))))

theorem reachable_canceledRun : Reachable canceledRun := by
  have h : Reachable ([], firstRun) :=
    ((Relation.ReflTransGen.refl.tail (.other (.request (.createOrganization "acme")))).tail
      (.other (.request (.createWorkspace { name := "prod", organization := "acme" })))).tail
        (.other (.request (.createRun { workspace := Identifier.fresh Workspace.stem 0 })))
  refine (h.tail (.dispatch _ [] ⟨firstRun.record, List.prefix_rfl, .inl ?_⟩)).tail (.other _)
  decide +kernel

/-- A user takes over the lock of a run that was canceled, just before the scheduler gives it back. -/
theorem lock_respected_canceledRun : ∃ t, Reachable t ∧ ∃ before e,
    before ++ [e] <+: t.2.record ∧ e.isOwn = true ∧
      e.deed = .request (.unlock (Identifier.fresh Workspace.stem 0)
        (.run (Identifier.fresh Run.stem 1)) false) ∧
      (replay before).holder? (Identifier.fresh Workspace.stem 0) = some (.user "ann") ∧
      (replay (before ++ [e])).holder? (Identifier.fresh Workspace.stem 0) = some (.user "ann") := by
  let v := Identifier.fresh Workspace.stem 0
  let run := Identifier.fresh Run.stem 1
  let t := (World.journal.dispatch canceledRun.2.latest (canceledRun.1,
    { canceledRun.2 with others := [[.request (.lock v (.user "ann"))]] })).2
  have ht : Reachable t := by
    refine reachable_canceledRun.tail (.dispatch _ _ ⟨_, List.prefix_rfl, .inl ?_⟩)
    decide +kernel
  let before := canceledRun.2.record ++ [⟨false, .request (.lock v (.user "ann"))⟩]
  let e : Entry := ⟨true, .request (.unlock v (.run run) false)⟩
  have hp : before ++ [e] <+: t.2.record := by decide +kernel
  have hl : (replay before).holder? v = some (.user "ann") := by decide +kernel
  refine ⟨t, ht, before, e, hp, rfl, rfl, hl, ?_⟩
  rcases (ht.lock_respected v).1 before [e] "ann" hp hl with hl' | ⟨d, x, -, hd, -, hx, -⟩
  · exact hl'
  · obtain rfl := List.mem_singleton.mp (hd.subset (List.mem_append_right _ (List.mem_singleton_self x)))
    cases hx

end Journal

end Provision
