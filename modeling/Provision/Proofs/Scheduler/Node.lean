import Provision.Proofs.Scheduler.Abreast

/-!
# Nodes that hear all events

* `Node.Move`: what happens to a node. Users and agents make calls, the scheduler hears the events that
  were announced in their order, and seeds at any time; it may be replaced by another one, which hears no
  event that was announced before and seeds at once.
* `Node.Abreast`: no queue is left behind. Every move keeps this (`Node.Move.abreast`).
* `Node.Settled`: the queue of a workspace is what the store makes of it.
* `Node.Reachable.settled_of_backlog_eq_nil`: so are all queues once all events were heard.
-/

namespace Provision

open Scheduler

/-- A node: what its scheduler knows and what is stored, and how many of the announced events the
scheduler has heard. -/
structure Node where
  /-- What the scheduler knows, and what is stored. -/
  state : Roster × Ledger := ([], {})
  /-- How many events were heard. -/
  heard : ℕ := 0

namespace Node

/-- The events that are left to hear. -/
def backlog (n : Node) : List Event :=
  n.state.2.backlog n.heard

/-- One thing that happens to a node. -/
inductive Move (n : Node) : Node → Prop
  /-- The clock is read anew, or a user or an agent makes a call. -/
  | ledger (l : Ledger) : n.state.2.Move Request.IsOutside l → Move n ⟨(n.state.1, l), n.heard⟩
  /-- The oldest event that is left is dispatched. -/
  | hear (e : Event) : n.state.2.announced[n.heard]? = some e →
      Move n ⟨(dispatch e n.state).2, n.heard + 1⟩
  | seed : Move n ⟨(seed n.state).2, n.heard⟩
  /-- Another scheduler takes over, with the events to come, and seeds. -/
  | replace : Move n ⟨(Scheduler.seed ([], n.state.2)).2, n.state.2.announced.length⟩

/-- The nodes that come about from one that has nothing stored. -/
def Reachable (n : Node) : Prop :=
  Relation.ReflTransGen Move {} n

/-- No queue is left behind. -/
structure Abreast (n : Node) : Prop where
  /-- Runs that are active or hold a lock are current. -/
  serial : Serial n.state
  /-- Nothing was heard that was not announced. -/
  le : n.heard ≤ n.state.2.announced.length
  /-- What a queue does not know, the backlog tells. -/
  everywhere : Everywhere (AbreastAt n.heard) n.state
  /-- The runs are in the order in which they were created. -/
  inOrder : n.state.2.InOrder

variable {n n' : Node} {l : Ledger} {w : Workspace} {e : Event}

theorem Abreast.empty : ({} : Node).Abreast :=
  ⟨.empty, le_rfl, (fun _ h => by cases h), .empty⟩

/-! ## Calls -/

theorem Abreast.created {l : Ledger} (h : n.Abreast) (hm : n.state.2.Move Request.IsOutside l)
    (hw : w ∈ l.store.workspaces) (hn : ∀ x ∈ n.state.2.store.workspaces, x.id ≠ w.id) :
    AbreastAt n.heard w.organization w.id (n.state.1, l) := by
  have hg := h.serial.good
  obtain ⟨ha, hlock, hruns⟩ := hm.created hg.sound hw hn
  obtain ⟨-, hgr⟩ := hm.sound hg.sound
  have hbl := Ledger.backlog_append h.le ha
  have hni : ¬ Identifier.Issued Workspace.stem n.state.2.supply w.id := by
    intro hi
    obtain ⟨x, hx, hid, -⟩ := hgr.workspace hw hi
    exact hn x hx hid.symm
  -- Nothing was known of the workspace before, as its identifier was not given out.
  have hq : n.state.1.queue? w.organization w.id = none := by
    rcases hq : n.state.1.queue? w.organization w.id with _ | q
    · rfl
    · exact absurd (hg.fits _ _ q hq).issued hni
  have hc : ∀ e ∈ n.state.2.backlog n.heard, ¬ e.Concerns w.id := fun e he hc =>
    hni ((hg.sound.vouched e (Ledger.mem_of_mem_backlog he)).issued_of_concerns hc)
  have ht : n.state.1.tracked w.organization w.id = [] := by rw [Roster.tracked, hq]; rfl
  refine ⟨?_, .inr ?_, ?_, fun q hq' => ?_, ?_, fun r hr => ?_, fun r hr => ?_⟩
  · rw [ha, List.length_append]
    exact h.le.trans (Nat.le_add_right _ _)
  · rw [hbl]
    exact ⟨_, List.mem_append_right _ (List.mem_singleton_self _), w, rfl, rfl⟩
  · rw [hbl, Queue.catchUp_append, ht, Store.unfinishedOf, hruns,
      Ledger.catchUp_of_forall fun e he => Queue.hear_of_not_concerns (hc e he) _]
    rfl
  · cases hq.symm.trans hq'
  · rw [hbl]
    refine Ledger.opened_of_forall fun e he => ?_
    rcases List.mem_append.mp he with he | he
    · exact fun hs => hc e he hs.concerns
    · rw [List.mem_singleton.mp he]
      rintro ⟨ws, hws, -, hu⟩
      obtain rfl : w = ws := Payload.workspace.inj hws
      rw [Workspace.isUserLocked, hlock] at hu
      cases hu
  · rw [hruns] at hr
    cases hr
  · rw [hruns] at hr
    cases hr

/-- **Calls leave no queue behind.** -/
theorem Abreast.ledger {l : Ledger} (h : n.Abreast) (hm : n.state.2.Move Request.IsOutside l) :
    Abreast ⟨(n.state.1, l), n.heard⟩ := by
  have hg := h.serial.good
  obtain ⟨hs', hgr⟩ := hm.sound hg.sound
  refine ⟨Serial.move (r := n.state.1) h.serial hm, h.le.trans hgr.announced.length_le, fun w' hw' => ?_,
    h.inOrder.move hg.sound hm⟩
  by_cases hw : ∃ w ∈ n.state.2.store.workspaces, w.id = w'.id
  swap
  · push Not at hw
    exact h.created hm hw' hw
  obtain ⟨w, hw, hid⟩ := hw
  obtain ⟨x, hx, hxid, ho⟩ := hgr.workspace hw' (hid ▸ hg.sound.ordered.issuedWorkspaces w hw)
  obtain rfl := hg.sound.ordered.workspace_eq hx hw (hxid.symm.trans hid.symm)
  obtain ⟨news, hn⟩ := hm.carries hg.sound hx ⟨w', hw', hxid⟩
  rw [ho, hxid]
  refine (h.everywhere x hx).carry hn rfl fun r hr hc hp => ?_
  -- The current run was stored before, and had not begun.
  obtain ⟨q, hq, hqc⟩ := Option.bind_eq_some_iff.mp hc
  have hi := ((hg.fits _ _ q hq).eligible r.id (Queue.mem_tracked_of_current hqc)).1
  obtain ⟨hr, hrv⟩ := Store.mem_runsOf.mp hr
  obtain ⟨y, hy, hyr⟩ := hgr.run hr hi
  refine ⟨y, Store.mem_runsOf.mpr ⟨hy, hyr.workspace.symm.trans hrv⟩, hyr.id.symm, ?_⟩
  by_contra hb
  exact hyr.begun hb hp

/-! ## Events and seeds -/

/-- **Hearing the oldest event leaves no queue behind.** -/
theorem Abreast.hear (h : n.Abreast) (he : n.state.2.announced[n.heard]? = some e) :
    Abreast ⟨(dispatch e n.state).2, n.heard + 1⟩ := by
  have hg := h.serial.good
  have hlt := (List.getElem?_eq_some_iff.mp he).1
  have hv := Ledger.Backs.vouched (hg.sound.vouched e (List.mem_of_getElem? he))
  have hserial := h.serial.dispatch hv
  rcases dispatch_heard hg hv with hi | ⟨o, v, q, q', hh⟩
  · refine ⟨hserial, hi.ledger ▸ hlt, fun w hw => ?_, hi.ledger ▸ h.inOrder⟩
    have hw : w ∈ n.state.2.store.workspaces := hi.ledger ▸ hw
    exact ((h.everywhere w hw).skip he (hi.aside w hw)).apart (hi.apart hw)
  · refine ⟨hserial, Nat.le_trans hlt hh.confined.grows.announced.length_le, ?_,
      h.inOrder.spares hh.confined.spares⟩
    have hP : Everywhere (fun o v σ => AbreastAt n.heard o v σ ∧ LockedAt o v σ) n.state :=
      fun w hw => ⟨h.everywhere w hw, h.serial.locked w hw⟩
    refine hh.everywhere hg (fun o u hu ha ⟨hb, _⟩ => ?_)
      (fun ⟨hb, hl⟩ => hb.hear he hh hg (hh.locked hl)) hP
    exact (hb.skip he fun hc => hu (hc.unique hh.concerns)).apart ha

/-- **A seed leaves no queue behind.** -/
theorem Abreast.seed (h : n.Abreast) : Abreast ⟨(Scheduler.seed n.state).2, n.heard⟩ := by
  have hg := h.serial.good
  have hserial := Scheduler.Move.seed.serial h.serial
  obtain ⟨σ', hok, hr⟩ := h.serial.seed_ok
  rw [hok] at hserial ⊢
  refine ⟨hserial, h.le.trans hr.grows.announced.length_le, ?_, h.inOrder.spares hr.spares⟩
  refine hr.everywhere hg Seedable.apart AbreastAt.apart
    (fun hg hs hP => hs.abreast hP hg.sound) fun w hw => ?_
  exact (h.everywhere w hw).seedable hg (h.serial.held w hw) (h.serial.locked w hw)

/-- **Nor does another scheduler**, whatever the events were that it did not hear. -/
theorem Abreast.replace (h : n.Abreast) :
    Abreast ⟨(Scheduler.seed ([], n.state.2)).2, n.state.2.announced.length⟩ := by
  have hg := h.serial.good
  have hserial := Scheduler.Move.replace.serial h.serial
  rcases seed_reseeded hg.forget with ⟨σ', hok, hr⟩ | ⟨e, σ', -, -, w, hw, hc⟩
  swap
  · exact absurd hc (h.serial.uncrowded hw)
  rw [hok] at hserial ⊢
  refine ⟨hserial, hr.grows.announced.length_le, ?_, h.inOrder.spares hr.spares⟩
  refine hr.everywhere hg.forget Seedable.apart AbreastAt.apart
    (fun hg hs hP => hs.abreast hP hg.sound) fun w hw => ?_
  exact ((h.everywhere w hw).seedable hg (h.serial.held w hw) (h.serial.locked w hw)).of_new

/-- **Every move leaves no queue behind.** -/
theorem Move.abreast (hm : n.Move n') (h : n.Abreast) : n'.Abreast := by
  cases hm with
  | ledger l hl => exact h.ledger hl
  | hear e he => exact h.hear he
  | seed => exact h.seed
  | replace => exact h.replace

theorem Reachable.abreast (h : n.Reachable) : n.Abreast := by
  induction h with
  | refl => exact .empty
  | tail _ hm ih => exact hm.abreast ih

/-! ## When all events were heard -/

/-- The queue of a workspace is what the store makes of it. -/
structure Settled (n : Node) (w : Workspace) : Prop where
  queue : (n.state.1.queue? w.organization w.id).isSome
  /-- It tracks the runs that are neither speculative nor done, -/
  tracked : n.state.1.tracked w.organization w.id = n.state.2.store.unfinishedOf w.id
  /-- in the order in which they were created. -/
  order : (n.state.1.tracked w.organization w.id).Sublist n.state.2.created
  /-- The first of them has begun, unless a user holds the lock. -/
  begun : n.state.1.tracked w.organization w.id ≠ [] → w.isUserLocked = false →
    ∃ r ∈ n.state.2.store.runsOf w.id,
      (n.state.1.tracked w.organization w.id).head? = some r.id ∧ r.status ≠ .pending
  /-- A run that holds the lock is the first of them, and has begun. -/
  locked : ∀ run, w.lock = some (.run run) →
    (n.state.1.tracked w.organization w.id).head? = some run ∧
      ∃ r ∈ n.state.2.store.runsOf w.id, r.id = run ∧ r.status ≠ .pending
  /-- No speculative run is pending, or tracked. -/
  launched : ∀ r ∈ n.state.2.store.runsOf w.id, r.speculative = true →
    r.status ≠ .pending ∧ r.id ∉ n.state.1.tracked w.organization w.id

/-- **Once all events were heard, the queues are what the store makes of them**, whatever calls users
and agents made, whenever the scheduler seeded, and however often it was replaced. -/
theorem Reachable.settled_of_backlog_eq_nil (h : n.Reachable) (hb : n.backlog = [])
    (hw : w ∈ n.state.2.store.workspaces) : n.Settled w := by
  have ha := h.abreast
  have hat := ha.everywhere w hw
  have hg := ha.serial.good
  have hws := hg.sound.ordered.workspace?_eq_some_iff.mpr ⟨hw, rfl⟩
  have hb : n.state.2.backlog n.heard = [] := hb
  have ht : n.state.1.tracked w.organization w.id = n.state.2.store.unfinishedOf w.id := by
    have htold := hat.told
    rwa [hb] at htold
  obtain ⟨q, hq⟩ : ∃ q, n.state.1.queue? w.organization w.id = some q := by
    refine Option.isSome_iff_exists.mp (hat.present.resolve_right ?_)
    rw [hb]
    simp
  have hcur : (n.state.1.queue? w.organization w.id).bind (·.current) =
      (n.state.1.tracked w.organization w.id).head? := by
    rw [hq, Roster.tracked_of_queue? hq, Queue.head?_tracked (hg.fits _ _ q hq).headed]
    rfl
  have hstored : ∀ run ∈ n.state.1.tracked w.organization w.id,
      ∃ r ∈ n.state.2.store.runsOf w.id, r.id = run ∧ r.speculative = false := by
    intro run hrun
    obtain ⟨r, hr, hid, hv, hs, -⟩ := Store.mem_unfinishedOf.mp (ht ▸ hrun)
    exact ⟨r, Store.mem_runsOf.mpr ⟨hr, hv⟩, hid, hs⟩
  refine ⟨hq ▸ rfl, ht, ht ▸ ha.inOrder.unfinishedOf w.id, fun hne hu => ?_, fun run hl => ?_,
    fun r hr hs => ⟨fun hp => ?_, fun hm => ?_⟩⟩
  · obtain ⟨a, rest, hcons⟩ := List.exists_cons_of_ne_nil hne
    obtain ⟨r, hr, rfl, -⟩ := hstored a (hcons ▸ List.mem_cons_self)
    have hh : (n.state.1.tracked w.organization w.id).head? = some r.id := hcons ▸ rfl
    refine ⟨r, hr, hh, fun hp => ?_⟩
    -- No event is left that could excuse it.
    rcases hat.begun r hr (hcur.trans hh) hp with hul | ⟨e, he, -⟩
    · rw [Ledger.userLocked_iff hws, hu] at hul
      cases hul
    · rw [hb] at he
      cases he
  · obtain ⟨hc, hbegun⟩ := ha.serial.locked w hw w run hws hl
    have hh := hcur.symm.trans hc
    obtain ⟨r, hr, hid, -⟩ := hstored run (List.mem_of_mem_head? hh)
    exact ⟨hh, r, hr, hid, hbegun r hr hid⟩
  · obtain ⟨e, he, -⟩ := hat.launched r hr hs hp
    rw [hb] at he
    cases he
  · obtain ⟨x, hx, hid, hxs⟩ := hstored r.id hm
    rw [hg.sound.ordered.run_eq (Store.mem_runsOf.mp hx).1 (Store.mem_runsOf.mp hr).1 hid, hs] at hxs
    cases hxs

/-- The node after its scheduler has heard so many more events, as far as there are any. -/
def hearing (n : Node) : ℕ → Node
  | 0 => n
  | k + 1 => match n.state.2.announced[n.heard]? with
    | some e => (⟨(dispatch e n.state).2, n.heard + 1⟩ : Node).hearing k
    | none => n

theorem Reachable.hearing (h : n.Reachable) (k : ℕ) : (n.hearing k).Reachable := by
  induction k generalizing n with
  | zero => exact h
  | succ k ih =>
    unfold Node.hearing
    split
    · next e he => exact ih (h.tail (.hear e he))
    · exact h

theorem Reachable.calls (h : n.Reachable)
    (hl : Relation.ReflTransGen (Ledger.Move Request.IsOutside) n.state.2 l) :
    Reachable ⟨(n.state.1, l), n.heard⟩ := by
  induction hl with
  | refl => exact h
  | tail _ hm ih => exact ih.tail (.ledger _ hm)

theorem Reachable.of_ledger (h : Relation.ReflTransGen (Ledger.Move Request.IsOutside) {} l) :
    Reachable ⟨([], l), 0⟩ :=
  Reachable.calls (n := {}) .refl h

/-- The first run is admitted to its workspace when all events were heard. -/
theorem settled_firstRun : ∃ n : Node, n = (⟨([], Ledger.firstRun), 0⟩ : Node).hearing 8 ∧
    n.Reachable ∧ n.backlog = [] ∧ ∃ w ∈ n.state.2.store.workspaces, n.Settled w ∧
      w.lock = some (.run (Identifier.fresh Run.stem 1)) := by
  have hr : Reachable ⟨([], Ledger.firstRun), 0⟩ := by
    refine .of_ledger (Ledger.moves_after ?_ ?_)
    · simp [Request.IsOutside]
    · decide +kernel
  have hb : ((⟨([], Ledger.firstRun), 0⟩ : Node).hearing 8).backlog = [] := by decide +kernel
  obtain ⟨w, hw, hl⟩ : ∃ w ∈ ((⟨([], Ledger.firstRun), 0⟩ : Node).hearing 8).state.2.store.workspaces,
      w.lock = some (.run (Identifier.fresh Run.stem 1)) := by
    decide +kernel
  exact ⟨_, rfl, hr.hearing 8, hb, w, hw, (hr.hearing 8).settled_of_backlog_eq_nil hb hw, hl⟩

end Node

end Provision
