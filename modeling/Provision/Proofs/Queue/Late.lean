import Mathlib.Data.List.Infix
import Provision.Proofs.Ledger.Later
import Provision.Proofs.Queue.Twice
import Provision.Proofs.Scheduler.Calls

/-!
# Old news

A queue that hears of the runs of its workspace in the order in which they are announced, and then hears
of one of them once more, when other things have happened since.

* `Queue.Follower`: the queue, the ledger, and the events that it has handled so far.
* `Queue.Settled`: what a queue has made of the news of a run. It stays so (`Queue.Follower.Step.sane`).
* **`Queue.Follower.Reachable.handled_again`**: old news change nothing, but for the news that a run is
  unfinished which has ended since: such a run joins the queue again
  (`Queue.Follower.handled_again_ended`).
-/

namespace Provision.Queue

open Effect

variable {q q' : Queue} {l l' : Ledger} {x : Run} {e : Event} {run v : String} {tracked : List String}

/-! ## What is tracked after an event -/

theorem mem_tell (h : run ∈ tell tracked x) :
    run ∈ tracked ∨ x.speculative = false ∧ x.isDone = false ∧ x.id = run := by
  unfold tell at h
  split_ifs at h with hs hd hm
  · exact .inl h
  · exact .inl (List.mem_of_mem_erase h)
  · exact .inl h
  · refine (List.mem_append.mp h).imp_right fun h => ?_
    exact ⟨by simpa using hs, by simpa using hd, (List.mem_singleton.mp h).symm⟩

theorem head?_tell (hr : tracked.head? = some run)
    (hne : x.isDone = true → x.id ≠ run) : (tell tracked x).head? = some run := by
  obtain ⟨rest, rfl⟩ := List.head?_eq_some_iff.mp hr
  unfold tell
  split_ifs with hs hd hm
  · rfl
  · rw [List.erase_cons_tail (by simpa using (hne hd).symm)]
    rfl
  · rfl
  · rfl

theorem mem_hear (h : run ∈ hear v tracked e) : run ∈ tracked ∨
    ∃ x, e.payload = .run x ∧ x.isDone = false ∧ x.id = run := by
  unfold hear at h
  split at h
  · next x hx =>
    split_ifs at h
    · exact (mem_tell h).imp_right fun ⟨_, hd, hid⟩ => ⟨x, hx, hd, hid⟩
    · exact .inl h
  · exact .inl h

theorem mem_hear_of_mem (h : run ∈ tracked) : run ∈ hear v tracked e ∨
    ∃ x, e.payload = .run x ∧ x.isDone = true ∧ x.id = run := by
  unfold hear
  split
  · next x hx =>
    split_ifs
    · unfold tell
      split_ifs with hs hd hm
      · exact .inl h
      · by_cases hr : run = x.id
        · exact .inr ⟨x, hx, hd, hr.symm⟩
        · exact .inl ((List.mem_erase_of_ne hr).mpr h)
      · exact .inl h
      · exact .inl (List.mem_append_left _ h)
    · exact .inl h
  · exact .inl h

/-! ## What a queue has made of the news of a run -/

/-- The queue knows of the state of a run, or of a later one. -/
structure Settled (q : Queue) (l : Ledger) (x : Run) : Prop where
  /-- The plan of a speculative run was queued. -/
  started : x.speculative = true → x.status = .pending →
    ∀ r ∈ l.store.runs, r.id = x.id → r.status ≠ .pending
  gone : x.speculative = false → x.isDone = true → x.id ∉ q.tracked
  kept : x.speculative = false → x.isDone = false → x.id ∈ q.tracked ∨ l.Ended x.id

theorem Settled.later (h : Settled q l x) (hk : l.Knows x) (hl : l.Later l') : Settled q l' x where
  started hs hp r' hr' hid := by
    obtain ⟨r, hr, hrr⟩ := hl.run hr' (hid ▸ hk.issued)
    exact hrr.begun (h.started hs hp r hr (hrr.id.symm.trans hid))
  gone := h.gone
  kept hs hd := (h.kept hs hd).imp_right (hl.ended hk.issued)

/-- The news of other runs do not matter, nor do later news of the run. -/
theorem Settled.hear (h : Settled q l x) (ht : q'.tracked = hear v q.tracked e)
    (hf : ∀ y : Run, e.payload = .run y → y.id = x.id → x.isDone = true → y.isDone = true)
    (he : ∀ y : Run, e.payload = .run y → y.isDone = true → l.Ended y.id) : Settled q' l x where
  started := h.started
  gone hs hd hm := by
    rw [ht] at hm
    rcases mem_hear hm with hm | ⟨y, hy, hyd, hid⟩
    · exact h.gone hs hd hm
    · exact absurd (hf y hy hid hd) (by simp [hyd])
  kept hs hd := by
    rcases h.kept hs hd with hm | hend
    · rw [ht]
      refine (mem_hear_of_mem hm).imp_right fun ⟨y, hy, hyd, hid⟩ => ?_
      exact hid ▸ he y hy hyd
    · exact .inr hend

/-- **News that were just handled are settled.** -/
theorem settled_handle (hh : q.current = none → q.pending = []) (hn : q.tracked.Nodup)
    (hx : e.payload = .run x) (hv : x.workspace = q.workspace.id)
    (ho : (handle Backend.services e (q, l)).2.2.store.Ordered
      (handle Backend.services e (q, l)).2.2.supply) :
    Settled (handle Backend.services e (q, l)).2.1 (handle Backend.services e (q, l)).2.2 x := by
  have ht := handle_tracked hh e l
  rw [Queue.hear, hx] at ht
  have ht := ht.trans (if_pos hv)
  refine ⟨fun hs hp r hr hid => ?_, fun hs hd hm => ?_, fun hs hd => .inl ?_⟩
  · have hrun := ho.run?_eq_some_iff.mpr ⟨hr, hid⟩
    rw [handle_run hx hv, handleRun_speculative hs, if_pos hp, launchSpeculative_snd] at hrun
    exact enqueuePlan_started x.id l hrun
  · rw [ht] at hm
    exact absurd ((mem_tell_iff hn hs).mp hm) (by simp [hd])
  · rw [ht]
    exact (mem_tell_iff hn hs).mpr hd

/-- **Settled news are handled again**: nothing happens, unless the run has ended since, which joins the
queue. -/
theorem Settled.handle (h : Settled q l x) (hh : q.current = none → q.pending = [])
    (hx : e.payload = .run x) (hv : x.workspace = q.workspace.id) :
    if x.speculative = false ∧ x.isDone = false ∧ x.id ∉ q.tracked then
      l.Ended x.id ∧ (handle Backend.services e (q, l)).2 = (q.join x.id, l)
    else (handle Backend.services e (q, l)).2 = (q, l) := by
  rw [handle_run hx hv]
  by_cases hs : x.speculative = true
  · rw [if_neg (by simp [hs]), handleRun_speculative hs]
    split_ifs with hp
    · rw [launchSpeculative_snd, enqueuePlan_idle fun r hr =>
        h.started hs hp r (Store.run?_mem hr) (Store.run?_id hr)]
    · rfl
  have hs : x.speculative = false := by simpa using hs
  by_cases ht : x.id ∈ q.tracked ↔ x.isDone = false
  · rw [if_neg fun hc => hc.2.2 (ht.mpr hc.2.1), handleRun_told hs hh ht]
  have hd : x.isDone = false := by
    by_contra hd
    exact ht (iff_of_false (h.gone hs (by simpa using hd)) hd)
  have hm : x.id ∉ q.tracked := fun hm => ht (iff_of_true hm hd)
  have he : l.Ended x.id := (h.kept hs hd).resolve_left hm
  rw [if_pos ⟨hs, hd, hm⟩]
  refine ⟨he, ?_⟩
  rcases hc : q.current with _ | a
  · -- The run becomes the current one, but there is nothing to admit.
    rw [handleRun_idle hs hc, if_neg (by simp [hd])]
    refine (schedule_tried _ l x.id).idle ?_
    rintro ⟨r, w, hr, hp, -⟩
    have hrd := he r (Store.run?_mem hr) (Store.run?_id hr)
    rw [Run.isDone, hp] at hrd
    cases hrd
  · have ha : a ≠ x.id := fun ha => hm (ha ▸ mem_tracked_of_current hc)
    have hp : x.id ∉ q.pending := fun hp => hm (List.mem_append_right _ hp)
    rw [handleRun_behind hs hc ha, if_neg (by simp [hd]), if_neg hp]

/-! ## A queue that follows the events -/

/-- A queue that hears events in the order in which they are announced. -/
structure Follower where
  queue : Queue
  ledger : Ledger
  /-- The number of announced events that it is past. -/
  heard : Nat
  /-- The events that it handled, oldest first. -/
  handled : List Event := []

namespace Follower

variable {f f' : Follower}

/-- The next event is handled. -/
def hear (f : Follower) (e : Event) : Follower :=
  let s := (handle Backend.services e (f.queue, f.ledger)).2
  ⟨s.1, s.2, f.heard + 1, f.handled ++ [e]⟩

/-- One thing that happens: somebody does something, or the queue handles the next event, or it is not
given an event that is not about a run of its workspace. -/
inductive Step (f : Follower) : Follower → Prop
  | other (d : Deed) : Step f { f with ledger := d.on f.ledger }
  | hear (e : Event) : f.ledger.announced[f.heard]? = some e → Step f (f.hear e)
  | skip (e : Event) : f.ledger.announced[f.heard]? = some e →
      (∀ x : Run, e.payload = .run x → x.workspace ≠ f.queue.workspace.id) →
      Step f { f with heard := f.heard + 1 }

/-- What comes about from a new queue, which may come late and start with any event. -/
def Reachable (f : Follower) : Prop :=
  ∃ l ws n, Ledger.Later {} l ∧ Relation.ReflTransGen Step ⟨{ workspace := ws }, l, n, []⟩ f

/-- What holds at any time. -/
structure Sane (f : Follower) : Prop where
  truthful : f.ledger.Truthful
  headed : f.queue.current = none → f.queue.pending = []
  nodup : f.queue.tracked.Nodup
  past : ∀ e ∈ f.handled, e ∈ f.ledger.announced.take f.heard
  settled : ∀ e ∈ f.handled, ∀ x : Run, e.payload = .run x →
    x.workspace = f.queue.workspace.id → Settled f.queue f.ledger x

theorem Sane.knows (h : Sane f) (he : e ∈ f.handled) (hx : e.payload = .run x) : f.ledger.Knows x :=
  h.truthful.known e (List.mem_of_mem_take (h.past e he)) x hx

theorem Sane.later (h : Sane f) (hl : f.ledger.Later l) :
    Sane { f with ledger := l } where
  truthful := h.truthful.later hl
  headed := h.headed
  nodup := h.nodup
  past e he := (List.IsPrefix.take hl.announced _).subset (h.past e he)
  settled e he x hx hv := (h.settled e he x hx hv).later (h.knows he hx) hl

theorem Sane.follows (h : Sane f) (hn : f.ledger.announced[f.heard]? = some e) {e₀ : Event}
    (he : e₀ ∈ f.handled) : e₀.Follows e := by
  obtain ⟨hlt, rfl⟩ := List.getElem?_eq_some_iff.mp hn
  have hf := h.truthful.inOrder
  rw [← List.take_append_drop f.heard f.ledger.announced, List.pairwise_append] at hf
  refine hf.2.2 e₀ (h.past e₀ he) _ ?_
  rw [List.drop_eq_getElem_cons hlt]
  exact List.mem_cons_self

/-- **The next event keeps settled what was handled before.** -/
theorem Sane.hear (h : Sane f) (hn : f.ledger.announced[f.heard]? = some e) : Sane (f.hear e) := by
  have hl : f.ledger.Later (f.hear e).ledger :=
    .of_moves (Scheduler.handle_moves e (f.queue, f.ledger))
  have hturn := answer_turn Backend.services (.event e) (f.queue, f.ledger) h.headed h.nodup
  have hid : (f.hear e).queue.workspace.id = f.queue.workspace.id :=
    hturn.id Backend.services_isFaithful
  have ht : (f.hear e).queue.tracked = _ := handle_tracked h.headed e f.ledger
  have ho := h.truthful.later hl
  have hmem : e ∈ f.ledger.announced := List.mem_of_getElem? hn
  refine ⟨ho, hturn.headed h.headed, hturn.nodup h.headed h.nodup, fun e₀ he₀ => ?_,
    fun e₀ he₀ x hx hv => ?_⟩
  · refine (List.IsPrefix.take hl.announced _).subset ?_
    have hsucc : f.ledger.announced.take (f.hear e).heard =
        f.ledger.announced.take f.heard ++ [e] := by
      change f.ledger.announced.take (f.heard + 1) = _
      rw [List.take_add_one, hn]
      rfl
    rw [hsucc]
    exact (List.mem_append.mp he₀).elim (fun he => List.mem_append_left _ (h.past e₀ he))
      (List.mem_append_right _)
  · rcases List.mem_append.mp he₀ with he₀ | he₀
    · refine ((h.settled e₀ he₀ x hx (hv.trans hid)).later (h.knows he₀ hx) hl).hear ht
        (fun y hy hid => (h.follows hn he₀ x y hx hy hid).done) fun y hy => ?_
      exact (ho.known e (hl.announced.subset hmem) y hy).ended
    · obtain rfl := List.mem_singleton.mp he₀
      exact settled_handle h.headed h.nodup hx (hv.trans hid) ho.ordered

theorem Step.sane (hs : Step f f') (h : Sane f) : Sane f' := by
  cases hs with
  | other d => exact h.later (.deed d f.ledger)
  | hear e hn => exact h.hear hn
  | skip e hn _ =>
    refine ⟨h.truthful, h.headed, h.nodup, fun e₀ he₀ => ?_, h.settled⟩
    exact (List.take_prefix_take_left (Nat.le_succ _)).subset (h.past e₀ he₀)

theorem Reachable.sane (h : f.Reachable) : Sane f := by
  obtain ⟨l, ws, n, hl, hs⟩ := h
  induction hs with
  | refl =>
    exact ⟨Ledger.Truthful.empty.later hl, fun _ => rfl, List.nodup_nil, fun _ h => (by cases h),
      fun _ h => by cases h⟩
  | tail _ hs ih => exact hs.sane ih

/-- **Old news.** An event about a run that was handled is handled again, when any number of other events
were handled and anybody did anything. Nothing is stored or announced. The queue is as it was, unless
the event tells that a run is unfinished which the queue does not track any more: this run has ended, and
is tracked behind the others again. -/
theorem Reachable.handled_again (h : f.Reachable) (he : e ∈ f.handled) (hx : e.payload = .run x) :
    let again := (handle Backend.services e (f.queue, f.ledger)).2
    if x.workspace = f.queue.workspace.id ∧ x.speculative = false ∧ x.isDone = false ∧
        x.id ∉ f.queue.tracked then
      f.ledger.Ended x.id ∧ again = (f.queue.join x.id, f.ledger)
    else again = (f.queue, f.ledger) := by
  intro again
  have hs := h.sane
  by_cases hv : x.workspace = f.queue.workspace.id
  · simp only [hv, true_and]
    exact (hs.settled e he x hx hv).handle hs.headed hx hv
  · have hc : ¬ e.Concerns f.queue.workspace.id := by
      rw [Event.Concerns, hx]
      exact hv
    have hagain : again = (f.queue, f.ledger) := congrArg Prod.snd (handle_aside hc f.ledger)
    rw [if_neg fun h => hv h.1, hagain]

/-- The queue handles the next event, if there is one. -/
def next (f : Follower) : Follower :=
  (f.ledger.announced[f.heard]?).elim f f.hear

theorem Reachable.next (h : f.Reachable) : f.next.Reachable := by
  obtain ⟨l, ws, n, hl, hs⟩ := h
  refine ⟨l, ws, n, hl, ?_⟩
  unfold Follower.next
  rcases he : f.ledger.announced[f.heard]? with _ | e
  · exact hs
  · exact hs.tail (.hear e he)

theorem Reachable.other (h : f.Reachable) (d : Deed) :
    Reachable { f with ledger := d.on f.ledger } := by
  obtain ⟨l, ws, n, hl, hs⟩ := h
  exact ⟨l, ws, n, hl, hs.tail (.other d)⟩

/-- A new queue is about to hear of the first run of its workspace. -/
def atFirstRun : Follower where
  queue := { workspace := Workspace.new 0 { name := "prod", organization := "acme" } ⟨0, 0⟩ }
  ledger := Ledger.firstRun
  heard := 2

theorem reachable_atFirstRun : atFirstRun.Reachable := by
  have h : Ledger.Reachable Ledger.firstRun :=
    Ledger.moves_after (fun _ _ => trivial) (by decide +kernel)
  exact ⟨Ledger.firstRun, _, _, .of_moves h, .refl⟩

/-- The run is admitted, canceled, and the queue hears of all this. -/
def afterFirstRun : Follower :=
  let f := atFirstRun.next
  { f with ledger := (Deed.request (.cancel (Identifier.fresh Run.stem 1))).on f.ledger
    }.next.next.next.next

theorem reachable_afterFirstRun : afterFirstRun.Reachable :=
  (reachable_atFirstRun.next.other _).next.next.next.next

/-- The news of the first run are handled again while it is the current one. -/
theorem handled_again_current : ∃ f : Follower, f.Reachable ∧ ∃ e ∈ f.handled, ∃ x : Run,
    e.payload = .run x ∧ f.queue.current = some x.id ∧
      (handle Backend.services e (f.queue, f.ledger)).2 = (f.queue, f.ledger) := by
  obtain ⟨e, he, x, hm, hx, hc⟩ : ∃ e ∈ atFirstRun.next.handled,
      ∃ x ∈ Ledger.firstRun.store.runs, e.payload = .run x ∧
        atFirstRun.next.queue.current = some x.id := by
    decide +kernel
  have h := reachable_atFirstRun.next.handled_again he hx
  rw [if_neg fun hn => hn.2.2.2 (mem_tracked_of_current hc)] at h
  exact ⟨_, reachable_atFirstRun.next, e, he, x, hx, hc, h⟩

/-- **Old news are not harmless**: when the news of the first run are handled again after the news of its
end, the run becomes the current one. -/
theorem handled_again_ended : ∃ f : Follower, f.Reachable ∧ ∃ e ∈ f.handled, ∃ x r : Run,
    e.payload = .run x ∧ f.ledger.store.run? x.id = some r ∧ r.isDone = true ∧
      x.id ∉ f.queue.tracked ∧ f.queue.current = none ∧
      (handle Backend.services e (f.queue, f.ledger)).2.1.current = some x.id := by
  obtain ⟨e, he, x, hm, r, hr, h⟩ : ∃ e ∈ afterFirstRun.handled,
      ∃ x ∈ Ledger.firstRun.store.runs, ∃ r ∈ afterFirstRun.ledger.store.runs,
        e.payload = .run x ∧ afterFirstRun.ledger.store.run? x.id = some r ∧ r.isDone = true ∧
          x.id ∉ afterFirstRun.queue.tracked ∧ afterFirstRun.queue.current = none ∧
          (handle Backend.services e (afterFirstRun.queue, afterFirstRun.ledger)).2.1.current =
            some x.id := by
    decide +kernel
  exact ⟨_, reachable_afterFirstRun, e, he, x, r, h⟩

end Follower

end Provision.Queue
