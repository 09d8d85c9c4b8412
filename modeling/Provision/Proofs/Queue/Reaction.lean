import Provision.Proofs.Queue.Change

/-!
# How a queue reacts

* `Queue.tell`: the runs that a queue tracks after it heard of one of them.
* `Queue.Reacts`: what is known of every reaction. It comes down to changes, and either the current run
  was tried or it is the one it was.
* `Queue.schedule_reacts`, `Queue.retire_reacts`, `Queue.handleRun_reacts`, `Queue.forget_reacts`: the
  reactions, with the runs that are tracked after them.
-/

namespace Provision.Queue

open Effect

variable {o v run : String} {q : Queue} {l : Ledger}

/-- The runs that a queue tracks after it heard of a run. -/
def tell (tracked : List String) (x : Run) : List String :=
  if x.speculative then tracked
  else if x.isDone then tracked.erase x.id
  else if x.id ∈ tracked then tracked
  else tracked ++ [x.id]

/-- The current run waits for somebody else's lock, as far as is known, unless it has begun. -/
def Waits (v : String) (s : Queue × Ledger) : Prop :=
  ∀ r ∈ s.2.store.runsOf v, s.1.current = some r.id → r.status = .pending →
    s.1.workspace.isUserLocked = true ∨
      ∃ w holder, s.2.store.workspace? v = some w ∧ w.lock = some holder ∧ holder ≠ .run r.id

/-- The current run is the same, and nothing that it waits for has changed. -/
structure Steady (v : String) (s s' : Queue × Ledger) : Prop where
  current : s'.1.current = s.1.current
  copy : s'.1.workspace = s.1.workspace
  workspace : s'.2.store.workspace? v = s.2.store.workspace? v
  /-- The same runs but for speculative ones. -/
  runs : ∀ r ∈ s'.2.store.runsOf v, r.speculative = false → r ∈ s.2.store.runsOf v

theorem Steady.of_ledger {q' : Queue} (hc : q'.current = q.current)
    (hw : q'.workspace = q.workspace) : Steady v (q, l) (q', l) :=
  ⟨hc, hw, rfl, fun _ hr _ => hr⟩

theorem Steady.trans {s s' s'' : Queue × Ledger} (h : Steady v s s') (h' : Steady v s' s'') :
    Steady v s s'' where
  current := h'.current.trans h.current
  copy := h'.copy.trans h.copy
  workspace := h'.workspace.trans h.workspace
  runs r hr hs := h.runs r (h'.runs r hr hs) hs

theorem Waits.steady {s s' : Queue × Ledger} (h : Waits v s) (h' : Steady v s s')
    (hq : s'.1.Fits o v s'.2) : Waits v s' := by
  intro r hr hc hp
  obtain ⟨-, -, hns⟩ := (hq.eligible r.id (mem_tracked_of_current hc)).2 r
    (Store.mem_runsOf.mp hr).1 rfl
  rw [h'.copy, h'.workspace]
  exact h r (h'.runs r hr hns) (h'.current ▸ hc) hp

section Begun

variable {s : Queue × Ledger} (h : Waits v s)
  (hl : ∀ w run, s.2.store.workspace? v = some w → w.lock = some (.run run) → s.1.current = some run)

include h hl

/-- A current run that is pending waits for a user, if no other run holds the lock. -/
theorem Waits.userLocked {r : Run} (hr : r ∈ s.2.store.runsOf v) (hc : s.1.current = some r.id)
    (hp : r.status = .pending) : s.1.workspace.isUserLocked = true ∨ s.2.UserLocked v := by
  refine (h r hr hc hp).imp_right fun ⟨w, holder, hw, hlock, hne⟩ => ?_
  rcases holder with run | name
  · have hcr := hl w run hw hlock
    exact absurd (congrArg Holder.run (Option.some.inj (hcr.symm.trans hc))) hne
  · refine ⟨w, hw, ?_⟩
    rw [Workspace.isUserLocked, hlock]
    rfl

theorem Waits.begun (hsh : Shown v s) (hu : ¬ s.2.UserLocked v) {r : Run}
    (hr : r ∈ s.2.store.runsOf v) (hc : s.1.current = some r.id) : r.status ≠ .pending := by
  intro hp
  exact (h.userLocked hl hr hc hp).elim (fun hcopy => hu (hsh hcopy)) hu

end Begun

/-- What is known of every reaction of a queue. -/
structure Reacts (o v : String) (s s' : Queue × Ledger) : Prop where
  /-- It comes down to changes. -/
  changes : Changes o v s s'
  /-- The current run was tried, or is the one it was. -/
  settled : Waits v s' ∨ Steady v s s'

theorem Reacts.refl (s : Queue × Ledger) : Reacts o v s s :=
  ⟨.refl, .inr (.of_ledger rfl rfl)⟩

theorem Reacts.trans {s s' s'' : Queue × Ledger} (h : Reacts o v s s') (h' : Reacts o v s' s'')
    (hs : s.2.Sound) (hq : s.1.Fits o v s.2) : Reacts o v s s'' := by
  have hch : Changes o v s s'' := h.changes.trans h'.changes
  refine ⟨hch, ?_⟩
  rcases h'.settled with hw | hst
  · exact .inl hw
  · rcases h.settled with hw | hst'
    · exact .inl (hw.steady hst (hch.sound hs hq).2.2)
    · exact .inr (hst'.trans hst)

/-! ## Admission -/

section Schedule

variable (hs : l.Sound) (hq : q.Fits o v l) (hc : q.current = some run)

include hs hq hc

/-- **The current run is tried.** -/
theorem Tried.reacts {out : Except Error Unit × Queue × Ledger} (h : Tried q l run out) :
    Changes o v (q, l) out.2 ∧ Waits v out.2 ∧ out.2.1.tracked = q.tracked := by
  have hid := hq.id
  have hrun : ∀ r ∈ l.store.runsOf v, q.current = some r.id → l.store.run? run = some r := by
    intro r hr hcr
    refine hs.ordered.run?_eq_some_iff.mpr ⟨(Store.mem_runsOf.mp hr).1, ?_⟩
    exact Option.some.inj (hcr.symm.trans hc)
  cases h with
  | gone hr =>
    exact ⟨.refl, fun r hm hcr => absurd (hr.symm.trans (hrun r hm hcr)) (by simp), rfl⟩
  | past r hr hp =>
    refine ⟨.refl, fun x hx hcx hpx => ?_, rfl⟩
    obtain rfl := Option.some.inj (hr.symm.trans (hrun x hx hcx))
    exact absurd hpx hp
  | heldCopy r hr hp hu => exact ⟨.refl, fun _ _ _ _ => .inl hu, rfl⟩
  | unhoused r hr hp hw =>
    refine ⟨.refl, fun x hx _ _ => ?_, rfl⟩
    obtain ⟨hx, hxv⟩ := Store.mem_runsOf.mp hx
    obtain ⟨w, hm, hwx, -⟩ := hs.ordered.home x hx
    rw [hid, hs.ordered.workspace?_eq_some_iff.mpr ⟨hm, hwx.trans hxv⟩] at hw
    cases hw
  | held r w holder hr hp hw hl hne =>
    refine ⟨.refl, fun x hx hcx _ => .inr ⟨w, holder, hid ▸ hw, hl, ?_⟩, rfl⟩
    rwa [Option.some.inj (hcx.symm.trans hc)]
  | admitted r w hr hp hu hw hl =>
    obtain rfl := Store.run?_id hr
    rw [hid] at hw
    refine ⟨.single (.accept q l w r hc hr hp hw hl), fun x hx hcx hpx => ?_, rfl⟩
    have hx' : x ∈ (l.putRun (r.queued l.clock)).store.runsOf v := Ledger.runsOf_accept l w r v ▸ hx
    rcases mem_runsOf_putRun hr hp hx' with ⟨rfl, -⟩ | ⟨-, hne⟩
    · cases hpx
    · exact absurd (Option.some.inj (hcx.symm.trans hc)) hne

end Schedule

theorem Tried.ok {out : Except Error Unit × Queue × Ledger} (h : Tried q l run out) {r : Run}
    {w : Workspace} (hr : l.store.run? run = some r)
    (hw : l.store.workspace? q.workspace.id = some w) : out.1 = .ok () := by
  cases h with
  | gone hr' => cases hr.symm.trans hr'
  | unhoused _ _ _ hw' => cases hw.symm.trans hw'
  | past | heldCopy | held | admitted => rfl

theorem Tried.refused {out : Except Error Unit × Queue × Ledger} (h : Tried q l run out)
    (hr : l.store.run? run = none) : out = (.error (.runNotFound run), q, l) := by
  cases h with
  | gone _ => rfl
  | past _ hr' | heldCopy _ hr' | unhoused _ hr' | held _ _ _ hr' | admitted _ _ hr' =>
    cases hr.symm.trans hr'

theorem Tried.left {out : Except Error Unit × Queue × Ledger} (h : Tried q l run out) {r : Run}
    (hr : l.store.run? run = some r) (hp : r.status ≠ .pending) : out = (.ok (), q, l) := by
  cases h with
  | past => rfl
  | gone hr' => cases hr.symm.trans hr'
  | heldCopy x hx hpx | unhoused x hx hpx | held x _ _ hx hpx | admitted x _ hx hpx =>
    obtain rfl := Option.some.inj (hr.symm.trans hx)
    exact absurd hpx hp

/-! ## Retirement -/

/-- Give back the lock of the current run and go on to the next one. -/
def retire (run : String) : Step Ledger Unit := do
  unlock Backend.services run
  promote Backend.services

theorem promote_apply (q : Queue) (l : Ledger) :
    promote Backend.services (q, l) = match q.pending.head? with
      | none => (.ok (), (q.next, l))
      | some b => schedule Backend.services b (q.next, l) := by
  rcases q with ⟨w, c, _ | ⟨b, rest⟩⟩ <;> rfl

section Retire

variable (hs : l.Sound) (hq : q.Fits o v l) (hc : q.current = some run) (he : l.Ended run)

include hs hq hc he

omit hs in
theorem unlock_changes : ∃ s : Queue × Ledger, unlock Backend.services run (q, l) = (.ok (), s) ∧
    Changes o v (q, l) s ∧ s.1.current = q.current ∧ s.1.pending = q.pending ∧
    s.2.store.runs = l.store.runs ∧
    (s.2.store.workspace? v).isSome = (l.store.workspace? v).isSome ∧
    ∀ w, s.2.store.workspace? v = some w → w.lock ≠ some (.run run) := by
  obtain ⟨w, hw, hl, hu⟩ | ⟨hl, hu⟩ := unlock_apply q l run
  · rw [hq.id] at hw
    refine ⟨_, hu, .single (.release q l w run hc he hw hl), rfl, rfl, rfl, ?_, ?_⟩
    · obtain rfl := Store.workspace?_id hw
      simp only [Ledger.workspace?_release hw, hw, Option.isSome_some]
    · intro w' hw'
      obtain rfl := Store.workspace?_id hw
      obtain rfl := Option.some.inj ((Ledger.workspace?_release hw).symm.trans hw')
      simp
  · exact ⟨_, hu, .refl, rfl, rfl, rfl, rfl, hq.id ▸ hl⟩

omit hs in
/-- **The current run has ended**: the next one takes its place and is tried. -/
theorem retire_changes : ∃ s : Queue × Ledger, Changes o v (q, l) s ∧ s.1.tracked = q.pending ∧
    s.1.current = q.pending.head? ∧ s.2.store.runs = l.store.runs ∧
    (s.2.store.workspace? v).isSome = (l.store.workspace? v).isSome ∧
    ((q.pending.head? = none ∧ retire run (q, l) = (.ok (), s)) ∨
      ∃ b, q.pending.head? = some b ∧ Tried s.1 s.2 b (retire run (q, l))) := by
  obtain ⟨⟨q₁, l₁⟩, hu, hch, hc₁, hp₁, hr₁, hw₁, hl₁⟩ := unlock_changes hq hc he
  have he₁ : l₁.Ended run := fun r hr => he r (hr₁ ▸ hr)
  have hc₁ : q₁.current = some run := hc₁.trans hc
  have hp₁ : q₁.pending = q.pending := hp₁
  have hret : retire run (q, l) = promote Backend.services (q₁, l₁) := bind_ok hu
  refine ⟨(q₁.next, l₁), hch.tail (.next q₁ l₁ run hc₁ he₁ hl₁), ?_, ?_, hr₁, hw₁, ?_⟩
  · have ht := tracked_next hc₁
    rw [tracked_eq_cons hc₁] at ht
    rw [← hp₁, (List.cons.inj ht).2]
  · rw [← hp₁]
    rfl
  · rw [hret, promote_apply, hp₁]
    rcases q.pending.head? with _ | b
    · exact .inl ⟨rfl, rfl⟩
    · exact .inr ⟨b, rfl, schedule_tried _ _ b⟩

theorem retire_reacts : Changes o v (q, l) (retire run (q, l)).2 ∧
    Waits v (retire run (q, l)).2 ∧ (retire run (q, l)).2.1.tracked = q.pending := by
  obtain ⟨s, hch, ht, hc', -, -, ⟨hn, hret⟩ | ⟨b, hb, htried⟩⟩ := retire_changes hq hc he
  · rw [hret]
    refine ⟨hch, fun r _ hcr => ?_, ht⟩
    rw [hc', hn] at hcr
    cases hcr
  · obtain ⟨hs', -, hq'⟩ := hch.sound hs hq
    obtain ⟨hch', hw', ht'⟩ := htried.reacts hs' hq' (hc'.trans hb)
    exact ⟨hch.trans hch', hw', ht'.trans ht⟩

/-- Going on is refused if and only if the next run is gone. -/
theorem retire_ok (hw : (l.store.workspace? v).isSome)
    (hb : ∀ b, q.pending.head? = some b → (l.store.run? b).isSome) :
    (retire run (q, l)).1 = .ok () := by
  obtain ⟨s, hch, -, -, hr, hw', ⟨-, hret⟩ | ⟨b, hpb, htried⟩⟩ := retire_changes hq hc he
  · rw [hret]
  · obtain ⟨-, -, hq'⟩ := hch.sound hs hq
    obtain ⟨r, hrun⟩ := Option.isSome_iff_exists.mp (hb b hpb)
    obtain ⟨w, hws⟩ := Option.isSome_iff_exists.mp (hw'.trans hw)
    have hrun' : s.2.store.run? b = some r := by
      rw [Store.run?, hr]
      exact hrun
    exact htried.ok hrun' (hq'.id.symm ▸ hws)

omit hs in
theorem retire_refused {b : String} (hb : q.pending.head? = some b) (hr : l.store.run? b = none) :
    (retire run (q, l)).1 = .error (.runNotFound b) := by
  obtain ⟨s, hch, -, -, hrs, -, ⟨hn, -⟩ | ⟨c, hpc, htried⟩⟩ := retire_changes hq hc he
  · cases hb.symm.trans hn
  · obtain rfl := Option.some.inj (hb.symm.trans hpc)
    have hr' : s.2.store.run? b = none := by
      rw [Store.run?, hrs]
      exact hr
    rw [htried.refused hr']

end Retire

/-! ## Runs -/

section Run

variable {x : Run} {a : String}

theorem handleRun_speculative (hx : x.speculative = true) (s : Queue × Ledger) :
    handleRun Backend.services x s =
      if x.status = .pending then launchSpeculative Backend.services x.id s else (.ok (), s) := by
  unfold handleRun
  rw [if_pos hx]
  split_ifs <;> rfl

theorem handleRun_current (hx : x.speculative = false) (hc : q.current = some x.id) (l : Ledger) :
    handleRun Backend.services x (q, l) =
      if x.isDone then retire x.id (q, l) else (.ok (), (q, l)) := by
  unfold handleRun
  rw [if_neg (by simp [hx]), bind_ok (self_apply q l), hc]
  dsimp only
  rw [if_pos rfl]
  split_ifs <;> rfl

theorem handleRun_idle (hx : x.speculative = false) (hc : q.current = none) (l : Ledger) :
    handleRun Backend.services x (q, l) =
      if x.isDone then (.ok (), (q, l))
      else schedule Backend.services x.id (q.join x.id, l) := by
  unfold handleRun
  rw [if_neg (by simp [hx]), bind_ok (self_apply q l), join, hc]
  dsimp only
  split_ifs <;> rfl

theorem handleRun_behind (hx : x.speculative = false) (hc : q.current = some a) (ha : a ≠ x.id)
    (l : Ledger) : handleRun Backend.services x (q, l) =
      (.ok (), (if x.isDone then q.leave x.id
        else if x.id ∈ q.pending then q else q.join x.id, l)) := by
  unfold handleRun
  rw [if_neg (by simp [hx]), bind_ok (self_apply q l), hc]
  dsimp only
  rw [if_neg ha]
  unfold enlist
  rw [revise_apply]
  by_cases hm : x.id ∈ q.pending
  · by_cases hd : x.isDone = true
    · simp [hm, hd, leave]
    · simp [hm, hd]
  · by_cases hd : x.isDone = true
    · have hw : q.leave x.id = q := by rw [leave, List.erase_of_not_mem hm]
      simp [hm, hd, hw]
    · simp [hm, hd, join, hc]

theorem handleRun_active (ha : x.isActive = true) (hr : l.store.run? x.id = some x)
    (hc : q.current = none) : handleRun Backend.services x (q, l) = (.ok (), (q.join x.id, l)) := by
  obtain ⟨hns, hp, hd⟩ := (Run.isActive_iff x).mp ha
  rw [handleRun_idle hns hc, if_neg (by simp [hd])]
  exact (schedule_tried _ l x.id).left hr hp

variable (hs : l.Sound) (hq : q.Fits o v l) (hx : l.Vouches (Event.runStatus x))
  (hv : x.workspace = v) (ho : x.organization = o)

include hs hx hv in
/-- The plan of a speculative run is queued, unless the run is past pending or gone. -/
theorem launchSpeculative_reacts (hsp : x.speculative = true) (q : Queue) :
    let out := launchSpeculative Backend.services x.id (q, l)
    Reacts o v (q, l) out.2 ∧ out.2.1 = q ∧
      (∀ r ∈ out.2.2.store.runs, r.id = x.id → r.status ≠ .pending) ∧
      ((l.store.run? x.id).isSome → out.1 = .ok ()) := by
  intro out
  have hl := Service.enqueuePlan_apply x.id l
  have hout : out = (attempt (call (Service.enqueuePlan x.id)) >>= _) (q, l) := rfl
  rcases hr : l.store.run? x.id with _ | r
  · rw [hr] at hl
    rw [bind_ok (attempt_apply (call_apply hl q))] at hout
    have hout : out = (.error (.runNotFound x.id), q, l) := hout
    rw [hout]
    refine ⟨.refl _, rfl, fun r hm hid => ?_, fun h => by cases h⟩
    exact absurd (hs.ordered.run?_eq_some_iff.mpr ⟨hm, hid⟩) (by simp [hr])
  · rw [hr] at hl
    have hid := Store.run?_id hr
    obtain ⟨-, -, -, hp⟩ := hx
    have hxr := hp r (Store.run?_mem hr) hid
    have hrs : r.speculative = true := hxr.speculative.trans hsp
    rw [← hid] at hr
    by_cases hpend : r.status = .pending
    · simp only [hpend, if_true] at hl
      rw [bind_ok (attempt_apply (call_apply hl q))] at hout
      have hout : out = (.ok (), q, l.putRun (r.queued l.clock)) := hout
      have hch : Change o v (q, l) (q, l.putRun (r.queued l.clock)) :=
        .launch q l r hr (hxr.workspace.trans hv) hrs hpend
      rw [hout]
      refine ⟨⟨.single hch, .inr ⟨rfl, rfl, rfl, fun y hy hys => ?_⟩⟩, rfl, fun y hy hyid => ?_,
        fun _ => rfl⟩
      · rcases mem_runsOf_putRun hr hpend hy with ⟨rfl, -⟩ | ⟨hy, -⟩
        · rw [(r.queued_precedes hpend l.clock).speculative, hrs] at hys
          cases hys
        · exact hy
      · rcases (Ledger.mem_runs_putRun hr (r.queued_precedes hpend l.clock).id).mp hy with
          rfl | ⟨-, hne⟩
        · simp [Run.queued, Run.enter, Run.enterPlan]
        · exact absurd (hyid.trans hid.symm) hne
    · simp only [hpend, if_false] at hl
      rw [bind_ok (attempt_apply (call_apply hl q))] at hout
      have hout : out = (.ok (), q, l) := hout
      rw [hout]
      refine ⟨.refl _, rfl, fun y hy hyid => ?_, fun _ => rfl⟩
      rw [hs.ordered.run_eq hy (Store.run?_mem hr) (hyid.trans hid.symm)]
      exact hpend

theorem tell_of_not_speculative (hx : x.speculative = false) (tracked : List String) :
    tell tracked x = if x.isDone then tracked.erase x.id
      else if x.id ∈ tracked then tracked else tracked ++ [x.id] := by
  rw [tell, if_neg (by simp [hx])]

include hs hq hx hv ho

theorem handleRun_idle_reacts (hns : x.speculative = false) (hc : q.current = none) :
    let out := handleRun Backend.services x (q, l)
    Reacts o v (q, l) out.2 ∧ out.2.1.tracked = tell q.tracked x := by
  intro out
  have hout : out = _ := handleRun_idle hns hc l
  have ht := (tracked_eq_nil hq.headed).mpr hc
  rw [tell_of_not_speculative hns]
  by_cases hd : x.isDone = true
  · rw [if_pos hd] at hout
    rw [hout, if_pos hd, ht]
    exact ⟨.refl _, rfl⟩
  · rw [if_neg hd] at hout
    have hel : l.Eligible o v x.id := hv ▸ ho ▸ hx.eligible rfl hns
    have hn : x.id ∉ q.tracked := by simp [ht]
    obtain ⟨hch, hw, htr⟩ := (schedule_tried (q.join x.id) l x.id).reacts hs (hq.join hel hn)
      (by rw [join, hc])
    rw [hout, if_neg hd, if_neg hn, htr, tracked_join hq.headed]
    exact ⟨⟨.head (.join q l x.id hel hn) hch, .inl hw⟩, rfl⟩

omit hv ho in
theorem handleRun_current_reacts (hns : x.speculative = false) (hc : q.current = some x.id) :
    let out := handleRun Backend.services x (q, l)
    Reacts o v (q, l) out.2 ∧ out.2.1.tracked = tell q.tracked x := by
  intro out
  have hout : out = _ := handleRun_current hns hc l
  rw [tell_of_not_speculative hns]
  by_cases hd : x.isDone = true
  · rw [if_pos hd] at hout
    obtain ⟨hch, hw, htr⟩ := retire_reacts hs hq hc (hx.ended rfl hd)
    rw [hout, if_pos hd, htr, tracked_eq_cons hc, List.erase_cons_head]
    exact ⟨⟨hch, .inl hw⟩, rfl⟩
  · rw [if_neg hd] at hout
    rw [hout, if_neg hd, if_pos (mem_tracked_of_current hc)]
    exact ⟨.refl _, rfl⟩

omit hs in
theorem handleRun_behind_reacts (hns : x.speculative = false) (hc : q.current = some a)
    (ha : a ≠ x.id) :
    let out := handleRun Backend.services x (q, l)
    Reacts o v (q, l) out.2 ∧ out.2.1.tracked = tell q.tracked x := by
  intro out
  have hout : out = _ := handleRun_behind hns hc ha l
  have hmem : x.id ∈ q.tracked ↔ x.id ∈ q.pending := by
    rw [tracked_eq_cons hc, List.mem_cons]
    exact or_iff_right fun h => ha h.symm
  rw [hout, tell_of_not_speculative hns]
  by_cases hd : x.isDone = true
  · rw [if_pos hd, if_pos hd, tracked_leave hc ha]
    exact ⟨⟨.single (.leave q l x.id a hc ha (hx.ended rfl hd)), .inr (.of_ledger rfl rfl)⟩, rfl⟩
  · rw [if_neg hd, if_neg hd]
    by_cases hm : x.id ∈ q.pending
    · rw [if_pos hm, if_pos (hmem.mpr hm)]
      exact ⟨.refl _, rfl⟩
    · have hn := fun h => hm (hmem.mp h)
      have hel : l.Eligible o v x.id := hv ▸ ho ▸ hx.eligible rfl hns
      rw [if_neg hm, if_neg hn, tracked_join hq.headed]
      exact ⟨⟨.single (.join q l x.id hel hn),
        .inr (.of_ledger ((join_current hc _).trans hc.symm) (join_workspace q _))⟩, rfl⟩

/-- **A queue hears of a run.** -/
theorem handleRun_reacts : let out := handleRun Backend.services x (q, l)
    Reacts o v (q, l) out.2 ∧ out.2.1.tracked = tell q.tracked x ∧
      (x.speculative = true → x.status = .pending →
        ∀ r ∈ out.2.2.store.runs, r.id = x.id → r.status ≠ .pending) := by
  intro out
  by_cases hsp : x.speculative = true
  · have hout : out = _ := handleRun_speculative hsp (q, l)
    have htell : tell q.tracked x = q.tracked := by rw [tell, if_pos hsp]
    by_cases hp : x.status = .pending
    · rw [if_pos hp] at hout
      obtain ⟨hr, hq', hl, -⟩ := launchSpeculative_reacts (o := o) hs hx hv hsp q
      rw [hout, htell]
      exact ⟨hr, congrArg tracked hq', fun _ _ => hl⟩
    · rw [if_neg hp] at hout
      rw [hout, htell]
      exact ⟨.refl _, rfl, fun _ h => absurd h hp⟩
  · have hns : x.speculative = false := by simpa using hsp
    refine and_assoc.mp ⟨?_, fun h => absurd h hsp⟩
    rcases hc : q.current with _ | a
    · exact handleRun_idle_reacts hs hq hx hv ho hns hc
    · by_cases ha : a = x.id
      · exact handleRun_current_reacts hs hq hx hns (ha ▸ hc)
      · exact handleRun_behind_reacts hq hx hv ho hns hc ha

omit hv ho hq in
/-- A run that is stored, and was not done, is heard of without a refusal. -/
theorem handleRun_ok (hq : q.Fits o v l) (hd : x.isDone = false) (hv : x.workspace = v)
    (hr : (l.store.run? x.id).isSome) (hw : (l.store.workspace? v).isSome) :
    (handleRun Backend.services x (q, l)).1 = .ok () := by
  have hnd : ¬ x.isDone = true := by simp [hd]
  by_cases hsp : x.speculative = true
  · rw [handleRun_speculative hsp]
    split_ifs
    · exact (launchSpeculative_reacts (o := o) hs hx hv hsp q).2.2.2 hr
    · rfl
  · have hns : x.speculative = false := by simpa using hsp
    rcases hc : q.current with _ | a
    · obtain ⟨r, hr⟩ := Option.isSome_iff_exists.mp hr
      obtain ⟨w, hw⟩ := Option.isSome_iff_exists.mp hw
      rw [handleRun_idle hns hc, if_neg hnd]
      exact (schedule_tried _ _ _).ok hr (by rw [join_workspace, hq.id]; exact hw)
    · by_cases ha : a = x.id
      · rw [handleRun_current hns (ha ▸ hc), if_neg hnd]
      · rw [handleRun_behind hns hc ha]

end Run

end Provision.Queue
