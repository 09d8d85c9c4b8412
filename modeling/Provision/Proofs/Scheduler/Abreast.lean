import Provision.Proofs.Queue.Calls
import Provision.Proofs.Scheduler.Serial

/-!
# Keeping up with the news

A scheduler that hears every event in its order knows all that it needs to, once it has heard them all.

* `Ledger.backlog`: the events that are left to hear.
* `Scheduler.AbreastAt`: what the queue of a workspace does not know, the backlog tells. News that carry
  what changed keep this (`Scheduler.AbreastAt.carry`), and so does hearing the oldest event of the
  backlog (`Scheduler.AbreastAt.hear`).
* `Scheduler.Seedable`: what it takes for a seed to keep it, or to bring it about
  (`Scheduler.Seeded.abreast`).
-/

namespace Provision

namespace Ledger

variable {l l' : Ledger} {v : String} {heard : ℕ} {e : Event} {news : List Event}

/-- The events that are left to a scheduler which has heard so many of them. -/
def backlog (l : Ledger) (heard : ℕ) : List Event :=
  l.announced.drop heard

theorem mem_of_mem_backlog (h : e ∈ l.backlog heard) : e ∈ l.announced :=
  List.mem_of_mem_drop h

theorem backlog_append (hle : heard ≤ l.announced.length) (ha : l'.announced = l.announced ++ news) :
    l'.backlog heard = l.backlog heard ++ news := by
  rw [backlog, ha, List.drop_append_of_le_length hle]
  rfl

theorem backlog_eq_cons (he : l.announced[heard]? = some e) :
    l.backlog heard = e :: l.backlog (heard + 1) := by
  obtain ⟨hlt, rfl⟩ := List.getElem?_eq_some_iff.mp he
  exact List.drop_eq_getElem_cons hlt

end Ledger

namespace Scheduler

open Queue (catchUp hear lasting Obstructed Waits)

variable {heard : ℕ} {o v : String} {σ σ' : Roster × Ledger} {q q' : Queue} {l : Ledger} {e : Event}
  {w ws : Workspace} {news : List Event}

/-- What the queue of a workspace does not know, the backlog tells. -/
structure AbreastAt (heard : ℕ) (o v : String) (σ : Roster × Ledger) : Prop where
  /-- Nothing was heard that was not announced. -/
  le : heard ≤ σ.2.announced.length
  /-- There is a queue, or the backlog tells of the workspace. -/
  present : (σ.1.queue? o v).isSome ∨
    ∃ e ∈ σ.2.backlog heard, ∃ ws, e.payload = .workspace ws ∧ ws.id = v
  /-- The queue comes to track what it should. -/
  told : catchUp v (σ.1.tracked o v) (σ.2.backlog heard) = σ.2.store.unfinishedOf v
  /-- If it believes that a user holds the lock, then this is so or it will know better. -/
  shown : ∀ q, σ.1.queue? o v = some q → q.workspace.isUserLocked = true →
    σ.2.Excuse v (σ.2.backlog heard)
  /-- The backlog does not end with a user's lock that is open. -/
  opened : σ.2.Opened v (σ.2.backlog heard)
  /-- If the current run is pending, then a user holds the lock or it will be tried. -/
  begun : ∀ r ∈ σ.2.store.runsOf v, (σ.1.queue? o v).bind (·.current) = some r.id →
    r.status = .pending → σ.2.Excuse v (σ.2.backlog heard)
  /-- If a speculative run is pending, then it will be heard of. -/
  launched : ∀ r ∈ σ.2.store.runsOf v, r.speculative = true → r.status = .pending →
    ∃ e ∈ σ.2.backlog heard, e.Starts v r.id

/-- **News that carry what changed** leave no queue behind, as long as the current run was pending
before if it is. -/
theorem AbreastAt.carry (h : AbreastAt heard o v σ) (hc : σ.2.Carries v σ'.2 news)
    (hq : σ'.1.queue? o v = σ.1.queue? o v)
    (hb : ∀ r' ∈ σ'.2.store.runsOf v, (σ.1.queue? o v).bind (·.current) = some r'.id →
      r'.status = .pending → ∃ r ∈ σ.2.store.runsOf v, r.id = r'.id ∧ r.status = .pending) :
    AbreastAt heard o v σ' := by
  have hbl := Ledger.backlog_append h.le hc.announced
  have ht : σ'.1.tracked o v = σ.1.tracked o v := by rw [Roster.tracked, Roster.tracked, hq]
  refine ⟨?_, ?_, ?_, fun q hq' hu => ?_, ?_, fun r' hr' hcur hp => ?_, fun r' hr' hs hp => ?_⟩
  · rw [hc.announced, List.length_append]
    exact h.le.trans (Nat.le_add_right _ _)
  · rw [hq, hbl]
    refine h.present.imp_right ?_
    rintro ⟨e, he, hw⟩
    exact ⟨e, List.mem_append_left _ he, hw⟩
  · rw [ht, hbl, Queue.catchUp_append, h.told, hc.told]
  · rw [hbl]
    exact (h.shown q (hq ▸ hq') hu).carry hc.excuse
  · rw [hbl]
    exact h.opened.carry hc.excuse hc.opened
  · rw [hq] at hcur
    obtain ⟨r, hr, hid, hrp⟩ := hb r' hr' hcur hp
    rw [hbl]
    exact (h.begun r hr (hcur.trans (congrArg some hid.symm)) hrp).carry hc.excuse
  · rw [hbl]
    rcases hc.awaited r' hr' hs hp with ⟨r, hr, hid, hrs, hrp⟩ | ⟨e, he, hst⟩
    · obtain ⟨e, he, hst⟩ := h.launched r hr hrs hrp
      exact ⟨e, List.mem_append_left _ he, hid ▸ hst⟩
    · exact ⟨e, List.mem_append_right _ he, hst⟩

theorem AbreastAt.apart (ha : Apart o v σ σ') (h : AbreastAt heard o v σ) : AbreastAt heard o v σ' := by
  obtain ⟨news, hn, -⟩ := ha.ledger.carries
  refine h.carry hn ha.queue fun r hr _ hp => ⟨r, ?_, rfl, hp⟩
  rwa [← ha.ledger.runs]

theorem AbreastAt.skip (h : AbreastAt heard o v σ) (he : σ.2.announced[heard]? = some e)
    (hne : ¬ e.Concerns v) : AbreastAt (heard + 1) o v σ := by
  have hb := Ledger.backlog_eq_cons he
  have hskip : σ.2.Excuse v (σ.2.backlog heard) → σ.2.Excuse v (σ.2.backlog (heard + 1)) := fun hx =>
    (hb ▸ hx).skip fun hu => hne hu.concerns
  refine ⟨(List.getElem?_eq_some_iff.mp he).1, ?_, ?_, fun q hq hu => hskip (h.shown q hq hu), ?_,
    fun r hr hc hp => hskip (h.begun r hr hc hp), fun r hr hs hp => ?_⟩
  · refine h.present.imp_right ?_
    rintro ⟨x, hx, ws, hws, hid⟩
    rw [hb] at hx
    rcases List.mem_cons.mp hx with rfl | hx
    · exact absurd (Event.concerns_of_workspace hws hid) hne
    · exact ⟨x, hx, ws, hws, hid⟩
  · rw [← h.told, hb, Queue.catchUp_cons, Queue.hear_of_not_concerns hne]
  · exact (hb ▸ h.opened).2
  · obtain ⟨x, hx, hst⟩ := h.launched r hr hs hp
    rw [hb] at hx
    rcases List.mem_cons.mp hx with rfl | hx
    · exact absurd hst.concerns hne
    · exact ⟨x, hx, hst⟩

/-- If the queue that hears the oldest event believes that a user holds the lock, then this is so, or
it will know better. -/
theorem AbreastAt.excuse_of_hear (h : AbreastAt heard o v σ) (he : σ.2.announced[heard]? = some e)
    (hh : Heard e o v q q' σ σ') (hn : σ.2.Carries v σ'.2 news)
    (hu : q'.workspace.isUserLocked = true) :
    σ'.2.Excuse v (σ.2.backlog (heard + 1) ++ news) := by
  have hb := Ledger.backlog_eq_cons he
  rcases Queue.Changes.copy hh.reacts.changes with hw | hnu
  swap
  · cases hnu.symm.trans hu
  rw [hw] at hu
  refine Ledger.Excuse.carry ?_ hn.excuse
  rcases hh.copy with ⟨p, hp, hpw, hne⟩ | hev | hst
  · rw [hpw] at hu
    exact (hb ▸ h.shown p hp hu).skip hne
  · exact (hb ▸ h.opened).1 ⟨_, hev, hh.fits.id, hu⟩
  · exact .inl ⟨_, hst, hu⟩

/-- **The queue hears the oldest event** of the backlog. -/
theorem AbreastAt.hear (h : AbreastAt heard o v σ) (he : σ.2.announced[heard]? = some e)
    (hh : Heard e o v q q' σ σ') (hg : Good σ) (hl : LockedAt o v σ') :
    AbreastAt (heard + 1) o v σ' := by
  obtain ⟨news, hn⟩ := hh.reacts.changes.carries hg.sound hh.fits
  have hb := Ledger.backlog_eq_cons he
  have hlt := (List.getElem?_eq_some_iff.mp he).1
  have hbl : σ'.2.backlog (heard + 1) = σ.2.backlog (heard + 1) ++ news :=
    Ledger.backlog_append hlt hn.announced
  have hshown : q'.workspace.isUserLocked = true → σ'.2.Excuse v (σ'.2.backlog (heard + 1)) := by
    rw [hbl]
    exact h.excuse_of_hear he hh hn
  refine ⟨?_, .inl (by rw [hh.queue]; rfl), ?_, fun p hp => ?_, ?_, fun r hr hc hp => ?_,
    fun r hr hs hp => ?_⟩
  · rw [hn.announced, List.length_append]
    exact Nat.le_trans hlt (Nat.le_add_right _ _)
  · rw [Roster.tracked_of_queue? hh.queue, hh.heard, hh.tracked, hbl, Queue.catchUp_append, ← hn.told,
      ← h.told, hb, Queue.catchUp_cons]
  · rw [hh.queue] at hp
    exact Option.some.inj hp ▸ hshown
  · rw [hbl]
    exact (hb ▸ h.opened).2.carry hn.excuse hn.opened
  · rw [LockedAt, hh.queue] at hl
    rw [hh.queue] at hc
    have hwaits : Waits v (q', σ'.2) → σ'.2.Excuse v (σ'.2.backlog (heard + 1)) := fun hw =>
      (hw.userLocked (fun w run hws hrun => (hl w run hws hrun).1) hr hc hp).elim hshown .inl
    -- The current run was tried, or it waits for what it waited for before.
    rcases hh.reacts.settled with hw | hst
    · exact hwaits hw
    by_cases hu : e.Unlocks v
    · exact hwaits (hh.tried hu)
    obtain ⟨-, -, hns⟩ := ((hh.reacts.changes.sound hg.sound hh.fits).2.2.eligible r.id
      (Queue.mem_tracked_of_current hc)).2 r (Store.mem_runsOf.mp hr).1 rfl
    have hx := h.begun r (hst.runs r hr hns) (hh.current.symm.trans (hst.current.symm.trans hc)) hp
    exact hbl ▸ ((hb ▸ hx).skip hu).carry hn.excuse
  · rw [hbl]
    rcases hn.awaited r hr hs hp with ⟨x, hx, hid, hxs, hxp⟩ | ⟨x, hx, hst⟩
    swap
    · exact ⟨x, List.mem_append_right _ hx, hst⟩
    obtain ⟨y, hy, hst⟩ := h.launched x hx hxs hxp
    rw [hb] at hy
    rcases List.mem_cons.mp hy with rfl | hy
    · obtain ⟨z, hz, -, hzid, hzs, hzp⟩ := hst
      exact absurd hp (hh.launched z hz hzs hzp r (Store.mem_runsOf.mp hr).1 (hid.symm.trans hzid.symm))
    · exact ⟨y, List.mem_append_left _ hy, hid ▸ hst⟩

/-! ## Seeds -/

/-- What it takes for a seed to keep a queue abreast, or to make it so. -/
structure Seedable (heard : ℕ) (o v : String) (σ : Roster × Ledger) : Prop where
  /-- Nothing was heard that was not announced. -/
  le : heard ≤ σ.2.announced.length
  /-- The backlog does not end with a user's lock that is open. -/
  opened : σ.2.Opened v (σ.2.backlog heard)
  /-- A run that holds the lock is current, if there is a queue. -/
  locked : LockedAt o v σ ∨ σ.1.queue? o v = none
  /-- It is active then, unless it has ended. -/
  taken : σ.2.Taken v
  /-- The active run comes first among those that should be tracked. -/
  first : ∀ r ∈ σ.2.store.runsOf v, r.isActive = true → (σ.2.store.unfinishedOf v).head? = some r.id
  /-- So do the tracked ones that have not ended. -/
  lasting : lasting σ.2 (σ.1.tracked o v) <+: σ.2.store.unfinishedOf v
  /-- A queue that tracks what it should goes on to do so. -/
  settled : catchUp v (σ.2.store.unfinishedOf v) (σ.2.backlog heard) = σ.2.store.unfinishedOf v
  /-- An obstructed queue is abreast already. -/
  behind : Obstructed σ.2 (σ.1.tracked o v) → AbreastAt heard o v σ

theorem Seedable.apart (ha : Apart o v σ σ') (h : Seedable heard o v σ) : Seedable heard o v σ' := by
  obtain ⟨news, hn, hnc⟩ := ha.ledger.carries
  have hbl := Ledger.backlog_append h.le hn.announced
  refine ⟨?_, ?_, h.locked.imp ha.locked ha.queue.trans, ha.taken h.taken, ?_, ?_, ?_, fun hob => ?_⟩
  · rw [hn.announced, List.length_append]
    exact h.le.trans (Nat.le_add_right _ _)
  · rw [hbl]
    exact h.opened.carry hn.excuse hn.opened
  · rw [ha.ledger.runs, ha.unfinishedOf]
    exact h.first
  · rw [ha.tracked, ha.unfinishedOf, Queue.lasting_of_spares ha.spares]
    exact h.lasting
  · rw [ha.unfinishedOf, hbl, Queue.catchUp_append, h.settled]
    exact Ledger.catchUp_of_forall fun e he => Queue.hear_of_not_concerns (hnc e he) _
  · rw [ha.tracked, Queue.obstructed_of_spares ha.spares] at hob
    exact (h.behind hob).apart ha

theorem not_mem_unfinishedOf_of_backlog (hs : σ.2.Sound) (he : e ∈ σ.2.backlog heard) {x : Run}
    (hx : e.payload = .run x) (hd : x.isDone = true) : x.id ∉ σ.2.store.unfinishedOf v := fun hm =>
  Ledger.not_ended_of_mem_unfinishedOf hm
    ((hs.vouched e (Ledger.mem_of_mem_backlog he)).ended hx hd)

theorem Good.lasting_eq (hg : Good σ) (o v : String) : lasting σ.2 (σ.1.tracked o v) =
    (σ.1.tracked o v).filter (· ∈ σ.2.store.unfinishedOf v) := by
  rcases hq : σ.1.queue? o v with _ | q
  · rw [Roster.tracked, hq]
    rfl
  rw [Roster.tracked_of_queue? hq]
  refine List.filter_congr fun run hrun => ?_
  have hiff : ¬ σ.2.Ended run ↔ run ∈ σ.2.store.unfinishedOf v :=
    ⟨((hg.fits o v q hq).eligible run hrun).mem_unfinishedOf, Ledger.not_ended_of_mem_unfinishedOf⟩
  simp only [← hiff, decide_not]

/-- **A queue that is abreast** may be seeded. -/
theorem AbreastAt.seedable (h : AbreastAt heard o v σ) (hg : Good σ) (hh : HeldAt o v σ)
    (hl : LockedAt o v σ) : Seedable heard o v σ := by
  have hd : ∀ e ∈ σ.2.backlog heard, ∀ x : Run, e.payload = .run x → x.isDone = true →
      x.id ∉ σ.2.store.unfinishedOf v := fun e he x hx => not_mem_unfinishedOf_of_backlog hg.sound he hx
  have hpre : lasting σ.2 (σ.1.tracked o v) <+: σ.2.store.unfinishedOf v := by
    rw [hg.lasting_eq]
    exact Queue.filter_prefix h.told hd
  refine ⟨h.le, h.opened, .inl hl, hl.taken fun p hp => hg.fits o v p hp, fun r hr ha => ?_, hpre,
    Queue.catchUp_self h.told hd (hg.sound.ordered.nodup_unfinishedOf v), fun _ => h⟩
  -- The active run is current, so it comes first among the tracked ones that have not ended.
  obtain ⟨q, hq, hc⟩ := Option.bind_eq_some_iff.mp (hh r hr ha)
  have he : ¬ σ.2.Ended r.id := Ledger.not_ended_iff.mpr
    ⟨r, (Store.mem_runsOf.mp hr).1, rfl, ((Run.isActive_iff r).mp ha).2.2⟩
  rw [Roster.tracked_of_queue? hq, Queue.tracked_eq_cons hc, Queue.lasting,
    List.filter_cons_of_pos (by simpa using he)] at hpre
  obtain ⟨rest, hrest⟩ := hpre
  rw [← hrest]
  rfl

/-- **A new scheduler may seed** when it knows of no event, if that of before was abreast. -/
theorem Seedable.of_new (h : Seedable heard o v σ) :
    Seedable σ.2.announced.length o v ([], σ.2) := by
  have hb : σ.2.backlog σ.2.announced.length = [] := List.drop_length
  refine ⟨le_rfl, ?_, .inr rfl, h.taken, h.first, List.nil_prefix, ?_, False.elim⟩
  · rw [hb]
    trivial
  · rw [hb]
    rfl

section Seeded

variable (h : Seeded ws q l σ σ') (hs : Seedable heard ws.organization ws.id σ)

include h

theorem Seeded.carries : ∃ news, σ.2.Carries ws.id σ'.2 news := by
  have hrel : ∃ news, σ.2.Carries ws.id l news := by
    have hr := h.released
    cases hr with
    | kept => exact ⟨[], .refl ws.id _⟩
    | stale => exact ⟨_, Ledger.carries_putWorkspace _ _ h.stored rfl fun _ => .inr rfl⟩
  obtain ⟨news, hn⟩ := hrel
  obtain ⟨news', hn'⟩ := h.fed.reacts.changes.carries h.sound (h.fits.see rfl)
  exact ⟨news ++ news', hn.trans (h.ledger ▸ hn')⟩

theorem Seeded.tracked_of_obstructed (hob : Obstructed σ.2 (σ.1.tracked ws.organization ws.id)) :
    ∃ before, σ.1.tracked ws.organization ws.id =
      before ++ σ'.1.tracked ws.organization ws.id ∧ ∀ a ∈ before, σ.2.Ended a := by
  rw [h.tracked_before, ← Queue.obstructed_of_spares h.released.spares] at hob
  rcases h.fed.outcome with ⟨hn, -⟩ | ⟨-, before, b, after, hsplit, he, -, ht⟩
  · exact absurd hob hn
  · refine ⟨before, ?_, fun a ha => (h.released.spares.ended a).mp (he a ha)⟩
    rw [h.tracked_before, h.tracked_after, ht, hsplit]

theorem Seeded.launched_of_clear (hob : ¬ Obstructed σ.2 (σ.1.tracked ws.organization ws.id)) :
    ∀ r ∈ σ'.2.store.runsOf ws.id, r.speculative = true → r.status ≠ .pending := by
  rw [h.tracked_before, ← Queue.obstructed_of_spares h.released.spares] at hob
  rw [h.ledger]
  rcases h.fed.outcome with ⟨-, -, hl⟩ | ⟨hob', -⟩
  · exact hl
  · exact absurd hob' hob

include hs

/-- What is tracked after a seed that was not obstructed, in its order. -/
theorem Seeded.tracked_eq (hσ : σ.2.Sound)
    (hob : ¬ Obstructed σ.2 (σ.1.tracked ws.organization ws.id)) :
    σ'.1.tracked ws.organization ws.id = σ.2.store.unfinishedOf ws.id := by
  have hn := hσ.ordered.nodup_unfinishedOf ws.id
  rw [h.tracked_of_clear hob, Queue.joining_of_first hσ hs.first]
  obtain ⟨rest, hrest⟩ := hs.lasting
  rw [← hrest] at hn ⊢
  obtain ⟨-, -, hdis⟩ := List.nodup_append.mp hn
  rw [List.filter_append, List.filter_eq_nil_iff.mpr fun a ha => by simpa using ha, List.nil_append,
    List.filter_eq_self.mpr fun a ha => by simpa using fun ha' => hdis a ha' a ha rfl]

theorem Seeded.catchUp_tracked (hσ : σ.2.Sound) :
    catchUp ws.id (σ'.1.tracked ws.organization ws.id) (σ.2.backlog heard) =
      σ.2.store.unfinishedOf ws.id := by
  by_cases hob : Obstructed σ.2 (σ.1.tracked ws.organization ws.id)
  swap
  · rw [h.tracked_eq hs hσ hob]
    exact hs.settled
  obtain ⟨before, hsplit, hended⟩ := h.tracked_of_obstructed hob
  have hn := h.fits.nodup
  rw [← h.tracked_before, hsplit] at hn
  refine Queue.catchUp_eq (hs.behind hob).told
    (fun e he x hx => not_mem_unfinishedOf_of_backlog hσ he hx) (List.nodup_append.mp hn).2.1
    (fun id hid => .inl (hsplit ▸ List.mem_append_right before hid)) ?_
  have hnone : before.filter (· ∈ σ.2.store.unfinishedOf ws.id) = [] :=
    List.filter_eq_nil_iff.mpr fun a ha hm =>
      Ledger.not_ended_of_mem_unfinishedOf (by simpa using hm) (hended a ha)
  rw [hsplit, List.filter_append, hnone, List.nil_append]

/-- **A seed brings a queue abreast.** -/
theorem Seeded.abreast (hσ : σ.2.Sound) : AbreastAt heard ws.organization ws.id σ' := by
  obtain ⟨news, hn⟩ := h.carries
  have hbl := Ledger.backlog_append hs.le hn.announced
  have hlock := h.locked hs.locked hs.taken
  have hst : (feed ws (l.store.openRunsOf ws.id) (q, l)).2 =
      ((feed ws (l.store.openRunsOf ws.id) (q, l)).2.1, σ'.2) := Prod.ext rfl h.ledger.symm
  have hshown := h.shown
  have hw := h.fed.waits
  rw [hst] at hshown hw
  rw [h.queue] at hlock
  refine ⟨?_, .inl (by rw [h.queue]; rfl), ?_, fun p hp hu => ?_, ?_, fun r hr hc hp => ?_,
    fun r hr hsp hp => ?_⟩
  · rw [hn.announced, List.length_append]
    exact hs.le.trans (Nat.le_add_right _ _)
  · rw [hbl, Queue.catchUp_append, h.catchUp_tracked hs hσ, hn.told]
  · rw [h.queue] at hp
    obtain rfl := Option.some.inj hp
    exact .inl (hshown hu)
  · rw [hbl]
    exact hs.opened.carry hn.excuse hn.opened
  · rw [h.queue] at hc
    have hul := hw.userLocked (fun w run hws hrun => (hlock w run hws hrun).1) hr hc hp
    exact .inl (hul.elim (fun hu => hshown hu) id)
  · rw [hbl]
    by_cases hob : Obstructed σ.2 (σ.1.tracked ws.organization ws.id)
    swap
    · exact absurd hp (h.launched_of_clear hob r hr hsp)
    rcases hn.awaited r hr hsp hp with ⟨x, hx, hid, hxs, hxp⟩ | ⟨e, he, hst⟩
    · obtain ⟨e, he, hst⟩ := (hs.behind hob).launched x hx hxs hxp
      exact ⟨e, List.mem_append_left _ he, hid ▸ hst⟩
    · exact ⟨e, List.mem_append_right _ he, hst⟩

end Seeded

end Scheduler

end Provision
