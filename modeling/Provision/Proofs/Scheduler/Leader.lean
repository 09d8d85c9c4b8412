import Provision.Proofs.Broker.Arrival
import Provision.Proofs.Queue.Late
import Provision.Proofs.Scheduler.Serial

/-!
# Leaving the queues

A scheduler hears the events of its node as they were announced, and those of other nodes as they were
loaded when they arrived. It may hear them in any order, any number of times or never.

* `Leader`: the scheduler, and what it has heard since it took over.
* `Leader.Dismissed`: the last that was heard of a run is that it is done. No queue tracks such a run
  (`Leader.Step.sane`).
* **`Leader.Reachable.freed`**: the end of a run frees the queue, and its deletion does not. A run whose
  end cannot be loaded any more stays the current one (`Leader.not_freed_deletedAway`).
-/

namespace Provision

namespace Ledger

variable {l l' : Ledger} {e : Event}

/-- What a scheduler may take for granted of an event. -/
structure Credits (l : Ledger) (e : Event) : Prop where
  backs : l.Backs e
  /-- Organizations are deleted as it was announced. -/
  deleted : e.type = .organizationDeleted → e ∈ l.announced
  /-- A run that the event tells of was announced, perhaps in an earlier state. -/
  tells : ∀ x : Run, e.payload = .run x → l.Tells x

theorem Credits.mono (h : l.Credits e) (hg : l.Grows l') : l'.Credits e where
  backs := hg.backs h.deleted h.backs
  deleted he := hg.announced.subset (h.deleted he)
  tells x hx := (h.tells x hx).mono hg.announced

theorem credits_of_mem (hs : l.Sound) (he : e ∈ l.announced) : l.Credits e where
  backs := .vouched (hs.vouched e he)
  deleted _ := he
  tells _ hx := tells_of_mem he hx

/-- **What arrives of an announced event** is as good as the event. -/
theorem credits_arrival (hs : l.Sound) (ht : l.Truthful) {getters : List String} {a : Event}
    (he : e ∈ l.announced) (ha : e.arrival getters l.store = some a) : l.Credits a := by
  by_cases hd : e.type.isDeletion = true
  · rw [Event.arrival_of_isDeletion hd, ← ht.referred e he hd] at ha
    obtain rfl := Option.some.inj ha
    exact credits_of_mem hs he
  obtain ⟨-, p, hp, rfl⟩ := (Event.arrival_eq_some_iff hd).mp ha
  have hh := Store.holds_of_load hp
  refine ⟨?_, fun h => absurd (h ▸ rfl : e.type.isDeletion = true) hd, fun x hx => ?_⟩
  · cases p with
    | organization org | chunk c => exact .vouched trivial
    | run r => exact .vouched (vouches_stored hs.ordered hh)
    | deleted relation name => exact hh.elim
    | workspace ws =>
      refine .workspace ws rfl ⟨hs.ordered.issuedWorkspaces ws hh, (fun h => by cases h), ?_⟩
      intro w hw hid
      rw [hs.ordered.workspace_eq hw hh hid]
  · obtain rfl : p = .run x := hx
    exact ht.tells hh

end Ledger

/-- Whether an event tells that a run is done, if it is about this run. -/
def Event.done? (run : String) (e : Event) : Option Bool :=
  match e.payload with
  | .run x => if x.id = run then some x.isDone else none
  | _ => none

theorem Event.done?_eq_some_iff {run : String} {e : Event} {b : Bool} :
    e.done? run = some b ↔ ∃ x : Run, e.payload = .run x ∧ x.id = run ∧ x.isDone = b := by
  unfold Event.done?
  split
  · next x hx => simp [hx]
  · next hn => exact ⟨(fun h => by cases h), fun ⟨x, hx, _⟩ => (hn x hx).elim⟩

namespace Scheduler

open Queue (handle hear handle_tracked)

variable {o v run : String} {σ σ' σ₁ : Roster × Ledger} {q : Queue} {e : Event} {w : Workspace} {x : Run}

/-! ## What the queues track after an event -/

theorem Opened.id (h : Opened o v w q σ σ₁) (hg : Good σ) (hw : w.id = v) : q.workspace.id = v := by
  rcases h.origin with hq | ⟨-, rfl⟩
  · exact (hg.fits o v q hq).id
  · exact hw

theorem Opened.headed (h : Opened o v w q σ σ₁) (hg : Good σ) : q.current = none → q.pending = [] := by
  rcases h.origin with hq | ⟨-, rfl⟩
  · exact (hg.fits o v q hq).headed
  · exact fun _ => rfl

theorem Dispatched.queue? (h : Dispatched e σ σ') (hx : e.payload = .run x)
    (hq : σ.1.queue? x.organization x.workspace = some q) :
    σ'.1.queue? x.organization x.workspace = some (handle Backend.services e (q, σ.2)).2.1 := by
  cases h with
  | idle r _ _ hn _ => cases (hn x hx).symm.trans hq
  | run y w p σ₁ hy hop hid _ =>
    obtain rfl := Payload.run.inj (hx.symm.trans hy)
    rcases hop.origin with hp | ⟨hp, -⟩
    · obtain rfl := Option.some.inj (hq.symm.trans hp)
      rw [queue?_inQueue hop.queue, if_pos ⟨rfl, rfl⟩, hop.ledger]
    · cases hq.symm.trans hp
  | workspace ws p σ₁ hws hop => cases hx.symm.trans hws

/-- **What is tracked after an event**: the queue is gone, or it tracks what it did, or it was told of a
run. -/
theorem Dispatched.tracked (h : Dispatched e σ σ') (hg : Good σ) (o v : String) :
    σ'.1.queue? o v = none ∨
      (σ'.1.tracked o v = σ.1.tracked o v ∧
        ∀ x : Run, e.payload = .run x → ¬ (x.organization = o ∧ x.workspace = v)) ∨
      ∃ x : Run, e.payload = .run x ∧ x.organization = o ∧ x.workspace = v ∧
        σ'.1.tracked o v = Queue.tell (σ.1.tracked o v) x := by
  cases h with
  | idle r hr _ hn _ =>
    rcases hq : r.queue? o v with _ | q
    · exact .inl rfl
    · have hq' := hr o v q hq
      refine .inr (.inl ⟨?_, ?_⟩)
      · exact (Roster.tracked_of_queue? hq).trans (Roster.tracked_of_queue? hq').symm
      · rintro x hx ⟨rfl, rfl⟩
        cases (hn x hx).symm.trans hq'
  | run x w q σ₁ hx hop hid _ =>
    have hput := queue?_inQueue hop.queue (handle Backend.services e) o v
    by_cases hov : o = x.organization ∧ v = x.workspace
    · obtain ⟨rfl, rfl⟩ := hov
      rw [if_pos ⟨rfl, rfl⟩] at hput
      refine .inr (.inr ⟨x, hx, rfl, rfl, ?_⟩)
      rw [Roster.tracked_of_queue? hput, handle_tracked (hop.headed hg), hop.id hg hid, hop.tracked.2,
        hear, hx]
      exact if_pos rfl
    · rw [if_neg hov, hop.others o v hov] at hput
      refine .inr (.inl ⟨by rw [Roster.tracked, hput]; rfl, ?_⟩)
      rintro y hy ⟨rfl, rfl⟩
      obtain rfl := Payload.run.inj (hx.symm.trans hy)
      exact hov ⟨rfl, rfl⟩
  | workspace ws q σ₁ hws hop =>
    have hput := queue?_inQueue hop.queue (handle Backend.services e) o v
    refine .inr (.inl ⟨?_, fun y hy => by cases hws.symm.trans hy⟩)
    by_cases hov : o = ws.organization ∧ v = ws.id
    · obtain ⟨rfl, rfl⟩ := hov
      rw [if_pos ⟨rfl, rfl⟩] at hput
      rw [Roster.tracked_of_queue? hput, handle_tracked (hop.headed hg), hop.tracked.2, hear, hws]
    · rw [if_neg hov, hop.others o v hov] at hput
      rw [Roster.tracked, hput]
      rfl

theorem Good.nodup_tracked (hg : Good σ) (o v : String) : (σ.1.tracked o v).Nodup := by
  rcases hq : σ.1.queue? o v with _ | q
  · rw [Roster.tracked, hq]
    exact List.nodup_nil
  · rw [Roster.tracked_of_queue? hq]
    exact (hg.fits o v q hq).nodup

theorem not_mem_tracked (hq : σ.1.queue? o v = none) : run ∉ σ.1.tracked o v := by
  rw [Roster.tracked, hq]
  exact List.not_mem_nil

theorem mem_tracked_of_current (hq : σ.1.queue? o v = some q) (hc : q.current = some run) :
    run ∈ σ.1.tracked o v := by
  rw [Roster.tracked_of_queue? hq]
  exact Queue.mem_tracked_of_current hc

theorem head?_tracked (hg : Good σ) (o v : String) :
    (σ.1.tracked o v).head? = (σ.1.queue? o v).bind (·.current) := by
  rcases hq : σ.1.queue? o v with _ | q
  · rw [Roster.tracked, hq]
    rfl
  · rw [Roster.tracked_of_queue? hq, Queue.head?_tracked (hg.fits o v q hq).headed]
    rfl

/-- No queue tracks a run, and it holds no lock. -/
structure Freed (run : String) (σ : Roster × Ledger) : Prop where
  untracked : ∀ o v, run ∉ σ.1.tracked o v
  unlocked : ∀ w ∈ σ.2.store.workspaces, w.lock ≠ some (.run run)

theorem Serial.freed_of_untracked (h : Serial σ) (hn : ∀ o v, run ∉ σ.1.tracked o v) : Freed run σ := by
  refine ⟨hn, fun w hw hl => ?_⟩
  have hws := h.good.sound.ordered.workspace?_eq_some_iff.mpr ⟨hw, rfl⟩
  obtain ⟨q, hq, hc⟩ := Option.bind_eq_some_iff.mp (h.locked w hw w run hws hl).1
  exact hn _ _ (mem_tracked_of_current hq hc)

/-- **The queue goes on** when its current run ends: the oldest pending run takes its place. -/
theorem Dispatched.promoted (h : Dispatched e σ σ') (hg : Good σ) (hg' : Good σ')
    (hx : e.payload = .run x) (hs : x.speculative = false) (hd : x.isDone = true)
    (hq : σ.1.queue? x.organization x.workspace = some q) (hc : q.current = some x.id) :
    ∃ q', σ'.1.queue? x.organization x.workspace = some q' ∧ q'.current = q.pending.head? ∧
      q'.pending = q.pending.tail := by
  have hf := hg.fits _ _ q hq
  have hq' := h.queue? hx hq
  have hf' := hg'.fits _ _ _ hq'
  have ht := handle_tracked hf.headed e σ.2
  rw [hf.id, hear, hx] at ht
  have ht := ht.trans (if_pos rfl)
  rw [Queue.tell_of_not_speculative hs, if_pos hd, Queue.tracked_eq_cons hc, List.erase_cons_head] at ht
  refine ⟨_, hq', ?_, ?_⟩
  · rw [← Queue.head?_tracked hf'.headed, ht]
  · rw [← Queue.tail_tracked hf'.headed, ht]

end Scheduler

/-! ## A scheduler among other nodes -/

/-- A scheduler on one of several nodes. -/
structure Leader where
  /-- What the scheduler knows, and what is stored. -/
  state : Roster × Ledger := ([], {})
  /-- The events of other nodes that have arrived, as they were loaded then. -/
  loaded : List Event := []
  /-- The events that were heard since the scheduler took over, oldest first. -/
  heard : List Event := []

namespace Leader

open Scheduler

variable {s s' : Leader} {run : String} {e : Event} {l : Ledger}

/-- An event was announced, or it has arrived from another node. -/
def Told (s : Leader) (e : Event) : Prop :=
  e ∈ s.state.2.announced ∨ e ∈ s.loaded

/-- An event is dispatched. -/
def hear (s : Leader) (e : Event) : Leader :=
  { s with state := (dispatch e s.state).2, heard := s.heard ++ [e] }

/-- One thing that happens. -/
inductive Step (s : Leader) : Leader → Prop
  /-- The clock is read anew, or a user or an agent makes a call, on whatever node. -/
  | call (l : Ledger) : s.state.2.Move Request.IsOutside l → Step s { s with state := (s.state.1, l) }
  /-- An event of another node arrives, unless what it is about can no longer be loaded. -/
  | arrive (getters : List String) (e a : Event) : e ∈ s.state.2.announced →
      e.arrival getters s.state.2.store = some a → Step s { s with loaded := s.loaded ++ [a] }
  | hear (e : Event) : s.Told e → Step s (s.hear e)
  | seed : Step s { s with state := (Scheduler.seed s.state).2 }
  /-- Another scheduler takes over, and seeds. -/
  | replace : Step s { state := (Scheduler.seed ([], s.state.2)).2 }

/-- What comes about from nothing. -/
def Reachable (s : Leader) : Prop :=
  Relation.ReflTransGen Step {} s

/-- The last that was heard of a run is that it is done. -/
def Dismissed (s : Leader) (run : String) : Prop :=
  (s.heard.filterMap (·.done? run)).getLast? = some true

theorem dismissed_hear : (s.hear e).Dismissed run ↔
    e.done? run = some true ∨ e.done? run = none ∧ s.Dismissed run := by
  have hheard : (s.hear e).heard = s.heard ++ [e] := rfl
  rw [Dismissed, Dismissed, hheard, List.filterMap_append]
  rcases hd : e.done? run with _ | b
  · simp [hd]
  · simp [hd]

/-- What holds at any time. -/
structure Sane (s : Leader) : Prop where
  serial : Serial s.state
  truthful : s.state.2.Truthful
  credited : ∀ e, s.Told e → s.state.2.Credits e
  heard : ∀ e ∈ s.heard, s.Told e
  /-- A queue tracks runs where they belong. -/
  placed : ∀ o v, ∀ run ∈ s.state.1.tracked o v,
    ∃ x, s.state.2.Tells x ∧ x.id = run ∧ x.place = (o, v, false)
  /-- A run is not tracked if the last that was heard of it is that it is done. -/
  dismissed : ∀ run, s.Dismissed run → ∀ o v, run ∉ s.state.1.tracked o v

theorem Sane.credits (h : s.Sane) {l : Ledger} (hs : l.Sound) (hg : s.state.2.Grows l)
    (he : e ∈ l.announced ∨ e ∈ s.loaded) : l.Credits e :=
  he.elim (Ledger.credits_of_mem hs) fun he => (h.credited e (.inr he)).mono hg

theorem Sane.ended (h : s.Sane) (hd : s.Dismissed run) : s.state.2.Ended run := by
  obtain ⟨e, he, hdone⟩ := List.mem_filterMap.mp (List.mem_of_getLast? hd)
  obtain ⟨x, hx, rfl, hxd⟩ := Event.done?_eq_some_iff.mp hdone
  have hv := (h.credited e (h.heard e he)).backs.vouches fun ws hws => by cases hx.symm.trans hws
  rw [Ledger.Vouches, hx] at hv
  exact fun r hr hid => (hv.2.2.2 r hr hid).done hxd

theorem Sane.place (h : s.Sane) (ht : s.Told e) {x : Run} (hx : e.payload = .run x) {o v : String}
    (hr : x.id ∈ s.state.1.tracked o v) :
    x.organization = o ∧ x.workspace = v ∧ x.speculative = false := by
  obtain ⟨y, hy, hid, hp⟩ := h.placed o v x.id hr
  have hplace := (h.truthful.place ((h.credited e ht).tells x hx) hy hid.symm).trans hp
  simpa [Run.place] using hplace

/-- **Hearing of an event dismisses no run that is tracked.** -/
theorem Sane.not_tracked_hear (h : s.Sane) (ht : s.Told e) (hd : (s.hear e).Dismissed run)
    (o v : String) : run ∉ (s.hear e).state.1.tracked o v := by
  have hg := h.serial.good
  intro hr
  rcases (dispatch_dispatched hg (h.credited e ht).backs).tracked hg o v with
    hnone | ⟨hsame, haside⟩ | ⟨x, hx, rfl, rfl, htell⟩
  · exact not_mem_tracked hnone hr
  · have hr : run ∈ s.state.1.tracked o v := hsame ▸ hr
    rcases dismissed_hear.mp hd with hdone | ⟨-, hd⟩
    · obtain ⟨x, hx, rfl, -⟩ := Event.done?_eq_some_iff.mp hdone
      obtain ⟨ho, hv, -⟩ := h.place ht hx hr
      exact haside x hx ⟨ho, hv⟩
    · exact h.dismissed run hd o v hr
  · have hr : run ∈ Queue.tell (s.state.1.tracked x.organization x.workspace) x := htell ▸ hr
    -- The event does not tell that the run is unfinished.
    have hdone : x.id = run → x.isDone = true := by
      intro hid
      have hsome := Event.done?_eq_some_iff.mpr ⟨x, hx, hid, rfl⟩
      rcases dismissed_hear.mp hd with hdone | ⟨hnone, -⟩
      · exact Option.some.inj (hsome.symm.trans hdone)
      · cases hsome.symm.trans hnone
    rcases Queue.mem_tell hr with hm | ⟨-, hxd, hid⟩
    · by_cases hid : x.id = run
      · subst hid
        obtain ⟨-, -, hs⟩ := h.place ht hx hm
        have hxd := (Queue.mem_tell_iff (hg.nodup_tracked _ _) hs).mp hr
        exact absurd (hdone rfl) (by simp [hxd])
      · refine h.dismissed run ((dismissed_hear.mp hd).resolve_left fun hdone => ?_).2 _ _ hm
        obtain ⟨y, hy, hyid, -⟩ := Event.done?_eq_some_iff.mp hdone
        obtain rfl := Payload.run.inj (hx.symm.trans hy)
        exact hid hyid
    · exact absurd (hdone hid) (by simp [hxd])

theorem Sane.hear (h : s.Sane) (ht : s.Told e) : (s.hear e).Sane := by
  have hg := h.serial.good
  have hb := (h.credited e ht).backs
  obtain ⟨hg', hgr⟩ := dispatch_good hg hb
  have hlater : s.state.2.Later (s.hear e).state.2 := .of_moves (dispatch_moves e s.state)
  refine ⟨h.serial.dispatch hb, h.truthful.later hlater, fun a ha => h.credits hg'.sound hgr ha,
    fun a ha => ?_, fun o v run hr => ?_, fun run hd => h.not_tracked_hear ht hd⟩
  · have ha : s.Told a := by
      rcases List.mem_append.mp ha with ha | ha
      · exact h.heard a ha
      · exact List.mem_singleton.mp ha ▸ ht
    exact ha.imp_left fun ha => hlater.announced.subset ha
  · have hkeep : run ∈ s.state.1.tracked o v →
        ∃ x, (s.hear e).state.2.Tells x ∧ x.id = run ∧ x.place = (o, v, false) := by
      intro hr
      obtain ⟨x, hx, hp⟩ := h.placed o v run hr
      exact ⟨x, hx.mono hlater.announced, hp⟩
    rcases (dispatch_dispatched hg hb).tracked hg o v with hnone | ⟨hsame, -⟩ | ⟨x, hx, rfl, rfl, htell⟩
    · exact absurd hr (not_mem_tracked hnone)
    · exact hkeep (hsame ▸ hr)
    · rcases Queue.mem_tell (htell ▸ hr) with hr | ⟨hs, -, hid⟩
      · exact hkeep hr
      · refine ⟨x, ((h.credited e ht).tells x hx).mono hlater.announced, hid, ?_⟩
        rw [Run.place, hs]

/-- **What a seed brings about**, of this scheduler or of the one that takes over. -/
theorem Sane.reseeded (h : s.Sane) {r : Roster} {σ : Roster × Ledger}
    (hr : ∀ o v, r.tracked o v = s.state.1.tracked o v ∨ r.tracked o v = [])
    (hσ : Reseeded (r, s.state.2) σ) (hl : s.state.2.Later σ.2) (hs : Serial σ) :
    ({ s with state := σ } : Leader).Sane := by
  have hmem : ∀ o v run, run ∈ σ.1.tracked o v → run ∈ s.state.1.tracked o v ∨
      ∃ x ∈ s.state.2.store.runs, x.id = run ∧ x.isDone = false ∧ x.place = (o, v, false) := by
    intro o v run hrun
    rcases hσ.mem_tracked hrun with hm | ⟨w, hw, rfl, rfl, hm⟩
    · rcases hr o v with hr | hr
      · exact .inl (hr ▸ hm)
      · exact absurd (hr ▸ hm) List.not_mem_nil
    · obtain ⟨x, hx, hid, hv, hsp, hd⟩ := Store.mem_unfinishedOf.mp hm
      obtain ⟨u, hu, huid, huo⟩ := h.truthful.ordered.home x hx
      obtain rfl := h.truthful.ordered.workspace_eq hu hw (huid.trans hv)
      exact .inr ⟨x, hx, hid, hd, by rw [Run.place, hv, hsp, huo]⟩
  refine ⟨hs, h.truthful.later hl, fun e he => h.credits hs.good.sound hσ.grows he, fun e he => ?_,
    fun o v run hrun => ?_, fun run hd o v hrun => ?_⟩
  · exact (h.heard e he).imp_left fun he => hl.announced.subset he
  · rcases hmem o v run hrun with hm | ⟨x, hx, hid, -, hp⟩
    · obtain ⟨x, hx, hp⟩ := h.placed o v run hm
      exact ⟨x, hx.mono hl.announced, hp⟩
    · exact ⟨x, (h.truthful.tells hx).mono hl.announced, hid, hp⟩
  · rcases hmem o v run hrun with hm | ⟨x, hx, hid, hxd, -⟩
    · exact h.dismissed run hd o v hm
    · rw [h.ended hd x hx hid] at hxd
      cases hxd

theorem Step.sane (hs : Step s s') (h : s.Sane) : s'.Sane := by
  have hg := h.serial.good
  cases hs with
  | call l hm =>
    obtain ⟨hs', hgr⟩ := hm.sound hg.sound
    have hl : s.state.2.Later l := .of_moves (.single hm)
    refine ⟨Serial.move (r := s.state.1) h.serial hm, h.truthful.later hl,
      fun e he => h.credits hs' hgr he, fun e he => ?_, fun o v run hr => ?_, h.dismissed⟩
    · exact (h.heard e he).imp_left fun he => hl.announced.subset he
    · obtain ⟨x, hx, hp⟩ := h.placed o v run hr
      exact ⟨x, hx.mono hl.announced, hp⟩
  | arrive getters e a he ha =>
    refine ⟨h.serial, h.truthful, fun b hb => ?_, fun b hb => ?_, h.placed, h.dismissed⟩
    · rcases hb with hb | hb
      · exact h.credited b (.inl hb)
      rcases List.mem_append.mp hb with hb | hb
      · exact h.credited b (.inr hb)
      · rw [List.mem_singleton.mp hb]
        exact Ledger.credits_arrival hg.sound h.truthful he ha
    · exact (h.heard b hb).imp_right (List.mem_append_left _)
  | hear e ht => exact h.hear ht
  | seed =>
    have hserial := Scheduler.Move.seed.serial h.serial
    have hl : s.state.2.Later (Scheduler.seed s.state).2.2 := .of_moves (seed_moves s.state)
    obtain ⟨σ, hok, hr⟩ := h.serial.seed_ok
    rw [hok] at hserial hl ⊢
    exact h.reseeded (fun _ _ => .inl rfl) hr hl hserial
  | replace =>
    have hserial := Scheduler.Move.replace.serial h.serial
    have hl : s.state.2.Later (Scheduler.seed ([], s.state.2)).2.2 := .of_moves (seed_moves ([], s.state.2))
    rcases seed_reseeded hg.forget with ⟨σ, hok, hr⟩ | ⟨e, σ, -, -, w, hw, hc⟩
    swap
    · exact absurd hc (h.serial.uncrowded hw)
    rw [hok] at hserial hl ⊢
    obtain ⟨-, ht, hcr, -, hp, -⟩ := h.reseeded (fun _ _ => .inr rfl) hr hl hserial
    refine ⟨hserial, ht, fun e he => hcr e (.inl ?_), (fun e he => by cases he), hp, fun run hd => ?_⟩
    · exact he.resolve_right List.not_mem_nil
    · cases hd

theorem Reachable.sane (h : s.Reachable) : s.Sane := by
  induction h with
  | refl =>
    refine ⟨.empty, .empty, fun e he => ?_, (fun e he => by cases he),
      (fun o v run hr => by cases hr), fun run hd => by cases hd⟩
    exact absurd he (by simp [Told])
  | tail _ hs ih => exact hs.sane ih

/-- A current run gives way to the oldest pending one when it is heard to be done. -/
theorem Sane.promoted (h : s.Sane) (ht : s.Told e) (hdone : e.done? run = some true) {o v : String}
    {q : Queue} (hq : s.state.1.queue? o v = some q) (hc : q.current = some run) :
    ∃ q', (dispatch e s.state).2.1.queue? o v = some q' ∧ q'.current = q.pending.head? ∧
      q'.pending = q.pending.tail := by
  have hg := h.serial.good
  have hb := (h.credited e ht).backs
  obtain ⟨x, hx, rfl, hd⟩ := Event.done?_eq_some_iff.mp hdone
  obtain ⟨rfl, rfl, hsp⟩ := h.place ht hx (mem_tracked_of_current hq hc)
  exact (dispatch_dispatched hg hb).promoted hg (dispatch_good hg hb).1 hx hsp hd hq hc

/-- A current run stays the current one when anything else is heard, as long as there is its queue. -/
theorem Sane.current (h : s.Sane) (ht : s.Told e) (hdone : e.done? run ≠ some true) {o v : String}
    (hc : (s.state.1.queue? o v).bind (·.current) = some run) :
    (dispatch e s.state).2.1.queue? o v = none ∨
      ((dispatch e s.state).2.1.queue? o v).bind (·.current) = some run := by
  have hg := h.serial.good
  have hb := (h.credited e ht).backs
  rw [← head?_tracked hg] at hc
  rw [← head?_tracked (dispatch_good hg hb).1]
  rcases (dispatch_dispatched hg hb).tracked hg o v with hnone | ⟨hsame, -⟩ | ⟨x, hx, rfl, rfl, htell⟩
  · exact .inl hnone
  · exact .inr (hsame ▸ hc)
  · rw [htell]
    refine .inr (Queue.head?_tell hc fun hd hid => hdone ?_)
    exact Event.done?_eq_some_iff.mpr ⟨x, hx, hid, hd⟩

/-- **How a run leaves the queues.** No queue tracks a run, and it holds no lock, if the last that was
heard of it is that it is done. When a scheduler hears that its current run is done, whether the run is
still stored or not, the oldest pending run takes its place. Nothing else that it hears makes the current
run give way, as long as there is the queue; above all, the deletion of a run changes nothing. -/
theorem Reachable.freed (h : s.Reachable) (run : String) :
    (s.Dismissed run → Freed run s.state) ∧
      (∀ e, s.Told e → e.done? run = some true → Freed run (dispatch e s.state).2 ∧
        ∀ o v q, s.state.1.queue? o v = some q → q.current = some run →
          ∃ q', (dispatch e s.state).2.1.queue? o v = some q' ∧ q'.current = q.pending.head? ∧
            q'.pending = q.pending.tail) ∧
      (∀ e, s.Told e → e.done? run ≠ some true →
        ∀ o v, (s.state.1.queue? o v).bind (·.current) = some run →
          (dispatch e s.state).2.1.queue? o v = none ∨
            ((dispatch e s.state).2.1.queue? o v).bind (·.current) = some run) ∧
      dispatch (Event.deleted .runDeleted run) s.state = (.ok (), s.state) := by
  have hs := h.sane
  refine ⟨fun hd => hs.serial.freed_of_untracked (hs.dismissed run hd), fun e ht hdone => ⟨?_, ?_⟩,
    fun e ht hdone o v hc => hs.current ht hdone hc, rfl⟩
  · have hs' := hs.hear ht
    exact hs'.serial.freed_of_untracked (hs'.dismissed run (dismissed_hear.mpr (.inl hdone)))
  · exact fun o v q hq hc => hs.promoted ht hdone hq hc

/-! ## Two runs -/

theorem Reachable.calls (h : s.Reachable)
    (hl : Relation.ReflTransGen (Ledger.Move Request.IsOutside) s.state.2 l) :
    Reachable { s with state := (s.state.1, l) } := by
  induction hl with
  | refl => exact h
  | tail _ hm ih => exact ih.tail (.call _ hm)

theorem Reachable.hears (h : s.Reachable) {events : List Event} (he : ∀ e ∈ events, s.Told e) :
    (events.foldl hear s).Reachable := by
  induction events generalizing s with
  | nil => exact h
  | cons e events ih =>
    have hl : s.state.2.Later (s.hear e).state.2 := .of_moves (dispatch_moves e s.state)
    refine ih (h.tail (.hear e (he e List.mem_cons_self))) fun a ha => ?_
    exact (he a (List.mem_cons_of_mem e ha)).imp_left fun ha => hl.announced.subset ha

/-- A scheduler with two runs of one workspace, the first of which is admitted. -/
def twoRuns : Leader :=
  let l := Ledger.firstRun.after [.createRun { workspace := Identifier.fresh Workspace.stem 0 }]
  l.announced.foldl hear { state := ([], l) }

/-- People make calls, and the scheduler has not heard of them. -/
def twoRunsAfter (calls : List Request) : Leader :=
  { twoRuns with state := (twoRuns.state.1, twoRuns.state.2.after calls) }

theorem reachable_twoRunsAfter {calls : List Request} (hp : ∀ c ∈ calls, c.IsOutside)
    (hd : ∀ e ∈ (twoRuns.state.2.after calls).announced, e.type ≠ .organizationDeleted) :
    (twoRunsAfter calls).Reachable := by
  have hl : Relation.ReflTransGen (Ledger.Move Request.IsOutside) {} (Ledger.firstRun.after
      [.createRun { workspace := Identifier.fresh Workspace.stem 0 }]) := by
    refine (Ledger.moves_after ?_ ?_).trans (Ledger.moves_after ?_ ?_)
    · simp [Request.IsOutside]
    · decide +kernel
    · simp [Request.IsOutside]
    · decide +kernel
  have h : twoRuns.Reachable :=
    Reachable.hears (Reachable.calls (s := {}) .refl hl) fun e he => .inl he
  exact h.calls (Ledger.moves_after hp hd)

/-- The first run was canceled. -/
def canceled : Leader :=
  twoRunsAfter [.cancel (Identifier.fresh Run.stem 1)]

/-- The end of the first run is heard of, and the second one is admitted. -/
theorem freed_canceled : canceled.Reachable ∧ ∃ e, canceled.Told e ∧
    ∃ q, canceled.state.1.queue? "acme" (Identifier.fresh Workspace.stem 0) = some q ∧
      q.current = some (Identifier.fresh Run.stem 1) ∧
      q.pending = [Identifier.fresh Run.stem 2] ∧
      Freed (Identifier.fresh Run.stem 1) (dispatch e canceled.state).2 ∧
      ∃ q', (dispatch e canceled.state).2.1.queue? "acme" (Identifier.fresh Workspace.stem 0) = some q' ∧
        q'.current = some (Identifier.fresh Run.stem 2) ∧ q'.pending = [] := by
  have h : canceled.Reachable := by
    refine reachable_twoRunsAfter ?_ ?_
    · simp [Request.IsOutside]
    · decide +kernel
  obtain ⟨e, he, hd⟩ : ∃ e ∈ canceled.state.2.announced,
      e.done? (Identifier.fresh Run.stem 1) = some true := by
    decide +kernel
  obtain ⟨q, hq, hc, hp⟩ : ∃ q ∈ canceled.state.1.queue? "acme" (Identifier.fresh Workspace.stem 0),
      q.current = some (Identifier.fresh Run.stem 1) ∧ q.pending = [Identifier.fresh Run.stem 2] := by
    decide +kernel
  obtain ⟨hf, hn⟩ := (h.freed (Identifier.fresh Run.stem 1)).2.1 e (.inl he) hd
  obtain ⟨q', hq', hc', hp'⟩ := hn _ _ q hq hc
  rw [hp] at hc' hp'
  exact ⟨h, e, .inl he, q, hq, hc, hp, hf, q', hq', hc', hp'⟩

/-- The first run was canceled and deleted on another node, and the scheduler is told that it was
deleted. -/
def deletedAway : Leader :=
  { twoRunsAfter [.cancel (Identifier.fresh Run.stem 1), .deleteRun (Identifier.fresh Run.stem 1)] with
    loaded := [Event.deleted .runDeleted (Identifier.fresh Run.stem 1)] }

/-- **A run that is deleted before the news of its end arrive is not freed**: the news cannot be loaded
any more, and when the deletion is heard of, the run stays the current one, holds the lock, and keeps
another one waiting. -/
theorem not_freed_deletedAway : deletedAway.Reachable ∧
    deletedAway.state.2.store.run? (Identifier.fresh Run.stem 1) = none ∧
    deletedAway.Told (Event.deleted .runDeleted (Identifier.fresh Run.stem 1)) ∧
    (∀ e ∈ deletedAway.state.2.announced, e.done? (Identifier.fresh Run.stem 1) = some true →
      e.arrival Broker.relations deletedAway.state.2.store = none) ∧
    let after := (dispatch (Event.deleted .runDeleted (Identifier.fresh Run.stem 1)) deletedAway.state).2
    (∃ q ∈ after.1.queue? "acme" (Identifier.fresh Workspace.stem 0),
      q.current = some (Identifier.fresh Run.stem 1) ∧ q.pending = [Identifier.fresh Run.stem 2]) ∧
    ∃ w ∈ after.2.store.workspaces, w.lock = some (.run (Identifier.fresh Run.stem 1)) := by
  refine ⟨?_, ?_, .inr ?_, ?_, ?_, ?_⟩
  · have h : (twoRunsAfter [.cancel (Identifier.fresh Run.stem 1),
        .deleteRun (Identifier.fresh Run.stem 1)]).Reachable := by
      refine reachable_twoRunsAfter ?_ ?_
      · simp [Request.IsOutside]
      · decide +kernel
    refine h.tail (.arrive [] (Event.deleted .runDeleted (Identifier.fresh Run.stem 1)) _ ?_ ?_)
    · decide +kernel
    · rfl
  all_goals decide +kernel

end Leader

end Provision
