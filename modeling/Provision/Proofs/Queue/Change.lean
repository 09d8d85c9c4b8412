import Mathlib.Logic.Relation
import Provision.Proofs.Queue.Admission

/-!
# The changes that a queue makes

Whatever the queue of a workspace does comes down to the changes of `Queue.Change`. What each of them
keeps is kept by all that a queue does.

* `Queue.Change.sound`: the ledger stays sound and the queue fits it.
* `Queue.Change.apart`: other workspaces do not notice.
* `Queue.Held`: an active run is the current one of its queue. `Queue.Locked`: so is a run that holds
  the lock, and it has begun.
* `Queue.Changes`: any number of changes.
-/

namespace Provision.Queue

/-- One change that the queue of the workspace `v` in the organization `o` makes. -/
inductive Change (o v : String) : Queue × Ledger → Queue × Ledger → Prop
  | join (q : Queue) (l : Ledger) (run : String) : l.Eligible o v run → run ∉ q.tracked →
      Change o v (q, l) (q.join run, l)
  /-- A run that has ended leaves the queue, in which it waited. -/
  | leave (q : Queue) (l : Ledger) (run a : String) : q.current = some a → a ≠ run → l.Ended run →
      Change o v (q, l) (q.leave run, l)
  /-- The current run has ended and gives back the lock. -/
  | release (q : Queue) (l : Ledger) (w : Workspace) (run : String) : q.current = some run →
      l.Ended run → l.store.workspace? v = some w → w.lock = some (.run run) →
      Change o v (q, l) (q.seeing { w with lock := none }, l.release w)
  /-- The current run has ended and the next one takes its place. -/
  | next (q : Queue) (l : Ledger) (run : String) : q.current = some run → l.Ended run →
      (∀ w, l.store.workspace? v = some w → w.lock ≠ some (.run run)) →
      Change o v (q, l) (q.next, l)
  /-- The current run is admitted. -/
  | accept (q : Queue) (l : Ledger) (w : Workspace) (r : Run) : q.current = some r.id →
      l.store.run? r.id = some r → r.status = .pending → l.store.workspace? v = some w →
      w.lock = none ∨ w.lock = some (.run r.id) →
      Change o v (q, l) (q.seeing (w.admitted r.id), l.accept w r)
  /-- The plan of a speculative run is queued. -/
  | launch (q : Queue) (l : Ledger) (r : Run) : l.store.run? r.id = some r → r.workspace = v →
      r.speculative = true → r.status = .pending →
      Change o v (q, l) (q, l.putRun (r.queued l.clock))

/-- Any number of changes. -/
abbrev Changes (o v : String) : Queue × Ledger → Queue × Ledger → Prop :=
  Relation.ReflTransGen (Change o v)

/-- Every active run of the workspace is the current one of its queue. -/
def Held (v : String) (q : Option Queue) (l : Ledger) : Prop :=
  ∀ r ∈ l.store.runsOf v, r.isActive = true → q.bind (·.current) = some r.id

/-- A run that holds the lock of the workspace is the current one of its queue, and has begun. -/
def Locked (v : String) (q : Option Queue) (l : Ledger) : Prop :=
  ∀ w run, l.store.workspace? v = some w → w.lock = some (.run run) →
    q.bind (·.current) = some run ∧ ∀ r ∈ l.store.runsOf v, r.id = run → r.status ≠ .pending

/-- Every active run of the workspace holds the lock. -/
def Granted (v : String) (l : Ledger) : Prop :=
  ∀ r ∈ l.store.runsOf v, r.isActive = true →
    ∃ w, l.store.workspace? v = some w ∧ w.lock = some (.run r.id)

/-- A queue that believes that a user holds the lock is right. -/
def Shown (v : String) (s : Queue × Ledger) : Prop :=
  s.1.workspace.isUserLocked = true → s.2.UserLocked v

/-- The same, but for some runs. -/
def LockedBut (except : String → Prop) (v : String) (q : Option Queue) (l : Ledger) : Prop :=
  ∀ w run, l.store.workspace? v = some w → w.lock = some (.run run) → except run ∨
    (q.bind (·.current) = some run ∧ ∀ r ∈ l.store.runsOf v, r.id = run → r.status ≠ .pending)

theorem lockedBut_false {v : String} {q : Option Queue} {l : Ledger} :
    LockedBut (fun _ => False) v q l ↔ Locked v q l := by
  simp only [LockedBut, Locked, false_or]

variable {o v u : String} {s s' : Queue × Ledger} {q : Queue} {l : Ledger}

/-- **A change keeps the ledger sound and the queue in line with it.** -/
theorem Change.sound (h : Change o v s s') (hs : s.2.Sound) (hq : s.1.Fits o v s.2) :
    s'.2.Sound ∧ s.2.Grows s'.2 ∧ s'.1.Fits o v s'.2 := by
  cases h with
  | join q l run he hn => exact ⟨hs, .refl l, hq.join he hn⟩
  | leave q l run a hc ha he => exact ⟨hs, .refl l, hq.leave hc ha⟩
  | release q l w run hc he hw hl =>
    obtain rfl := Store.workspace?_id hw
    obtain ⟨hs', hg⟩ := Ledger.sound_release hw hs
    exact ⟨hs', hg, (hq.see (w := { w with lock := none }) rfl).mono hg⟩
  | next q l run hc he hl => exact ⟨hs, .refl l, hq.next hc⟩
  | accept q l w r hc hr hp hw hl =>
    obtain rfl := Store.workspace?_id hw
    obtain ⟨hs', hg⟩ := Ledger.sound_accept hr hp hw hs
    exact ⟨hs', hg, (hq.see (w := w.admitted r.id) rfl).mono hg⟩
  | launch q l r hr hv hsp hp =>
    obtain ⟨hs', hg⟩ := hs.putRun hr (r.queued_precedes hp l.clock)
    exact ⟨hs', hg, hq.mono hg⟩

/-- **A change concerns one workspace only.** -/
theorem Change.apart (h : Change o v s s') (hs : s.2.Sound) (hq : s.1.Fits o v s.2) (huv : u ≠ v) :
    s.2.Apart u s'.2 := by
  cases h with
  | join | leave | next => exact .refl u _
  | release q l w run hc he hw hl =>
    obtain rfl := Store.workspace?_id hw
    exact Ledger.apart_putWorkspace (w := { w with lock := none }) huv _ _
  | accept q l w r hc hr hp hw hl =>
    obtain rfl := Store.workspace?_id hw
    obtain ⟨hv, -, -⟩ := (hq.eligible r.id (mem_tracked_of_current hc)).2 r (Store.run?_mem hr) rfl
    exact Ledger.apart_accept hr hp hs hw huv (hv ▸ huv)
  | launch q l r hr hv hsp hp =>
    subst hv
    exact Ledger.apart_putRun hs hr (r.queued_precedes hp l.clock) huv

theorem mem_runsOf_putRun {r x : Run} (hr : l.store.run? r.id = some r) (hp : r.status = .pending)
    (hx : x ∈ (l.putRun (r.queued l.clock)).store.runsOf v) :
    (x = r.queued l.clock ∧ r.workspace = v) ∨ (x ∈ l.store.runsOf v ∧ x.id ≠ r.id) := by
  obtain ⟨hx, hv⟩ := Store.mem_runsOf.mp hx
  rcases (Ledger.mem_runs_putRun hr (r.queued_precedes hp l.clock).id).mp hx with rfl | ⟨hx, hne⟩
  · exact .inl ⟨rfl, hv⟩
  · exact .inr ⟨Store.mem_runsOf.mpr ⟨hx, hv⟩, hne⟩

/-- **An active run stays the current one.** -/
theorem Change.held (h : Change o v s s') (hs : s.2.Sound) (hq : s.1.Fits o v s.2)
    (hh : Held v (some s.1) s.2) : Held v (some s'.1) s'.2 := by
  -- An active run is not one that has ended, so the current one is not active when it has.
  have hended : ∀ {q : Queue} {l : Ledger} {run : String}, Held v (some q) l → q.current = some run →
      l.Ended run → ∀ r ∈ l.store.runsOf v, r.isActive = true → False := by
    intro q l run hh hc he r hr ha
    have hid : run = r.id := Option.some.inj (hc.symm.trans (hh r hr ha))
    have hd := he r (Store.mem_runsOf.mp hr).1 hid.symm
    rw [((Run.isActive_iff r).mp ha).2.2] at hd
    cases hd
  cases h with
  | join q l run he hn =>
    intro r hr ha
    have hc : q.current = some r.id := hh r hr ha
    exact join_current hc run
  | leave q l run a hc ha he => exact hh
  | release q l w run hc he hw hl => exact fun r hr ha => (hended hh hc he r hr ha).elim
  | next q l run hc he hl => exact fun r hr ha => (hended hh hc he r hr ha).elim
  | accept q l w r hc hr hp hw hl =>
    intro x hx ha
    rw [Ledger.runsOf_accept] at hx
    rcases mem_runsOf_putRun hr hp hx with ⟨rfl, -⟩ | ⟨hx, -⟩
    · exact hc
    · exact hh x hx ha
  | launch q l r hr hv hsp hp =>
    intro x hx ha
    rcases mem_runsOf_putRun hr hp hx with ⟨rfl, -⟩ | ⟨hx, -⟩
    · have hns := ((Run.isActive_iff _).mp ha).1
      rw [(r.queued_precedes hp l.clock).speculative, hsp] at hns
      cases hns
    · exact hh x hx ha

/-- **The lock stays with the current run**, or with one of the exceptions. -/
theorem Change.lockedBut {except : String → Prop} (h : Change o v s s')
    (hh : LockedBut except v (some s.1) s.2) : LockedBut except v (some s'.1) s'.2 := by
  cases h with
  | join q l run he hn =>
    intro w x hw hl
    exact (hh w x hw hl).imp_right fun ⟨hc, hb⟩ => ⟨join_current hc run, hb⟩
  | leave q l run a hc ha he => exact hh
  | release q l w run hc he hw hl =>
    obtain rfl := Store.workspace?_id hw
    intro w' x hw' hl'
    rw [Ledger.workspace?_release hw] at hw'
    obtain rfl := Option.some.inj hw'
    cases hl'
  | next q l run hc he hl =>
    intro w x hw hx
    refine (hh w x hw hx).imp_right fun ⟨hcx, _⟩ => ?_
    have hrun : run = x := Option.some.inj (hc.symm.trans hcx)
    exact absurd (hrun ▸ hx) (hl w hw)
  | accept q l w r hc hr hp hw hl =>
    obtain rfl := Store.workspace?_id hw
    intro w' x hw' hl'
    rw [Ledger.workspace?_accept hw] at hw'
    obtain rfl := Option.some.inj hw'
    cases hl'
    refine .inr ⟨hc, fun y hy hid => ?_⟩
    rw [Ledger.runsOf_accept] at hy
    rcases mem_runsOf_putRun hr hp hy with ⟨rfl, -⟩ | ⟨-, hne⟩
    · simp [Run.queued, Run.enter, Run.enterPlan]
    · exact absurd hid hne
  | launch q l r hr hv hsp hp =>
    intro w x hw hl
    refine (hh w x hw hl).imp_right fun ⟨hc, hb⟩ => ⟨hc, fun y hy hid => ?_⟩
    rcases mem_runsOf_putRun hr hp hy with ⟨rfl, -⟩ | ⟨hy, -⟩
    · simp [Run.queued, Run.enter, Run.enterPlan]
    · exact hb y hy hid

/-- **A run that becomes active is given the lock**, if every active run holds it before. -/
theorem Change.granted (h : Change o v s s') (hh : Held v (some s.1) s.2) (hg : Granted v s.2) :
    Granted v s'.2 := by
  cases h with
  | join | leave | next => exact hg
  | release q l w run hc he hw hl =>
    intro r hr ha
    have hid : run = r.id := Option.some.inj (hc.symm.trans (hh r hr ha))
    have hd := he r (Store.mem_runsOf.mp hr).1 hid.symm
    rw [((Run.isActive_iff r).mp ha).2.2] at hd
    cases hd
  | accept q l w r hc hr hp hw hl =>
    obtain rfl := Store.workspace?_id hw
    intro x hx ha
    refine ⟨_, Ledger.workspace?_accept hw r, ?_⟩
    rw [Ledger.runsOf_accept] at hx
    rcases mem_runsOf_putRun hr hp hx with ⟨rfl, -⟩ | ⟨hx, hne⟩
    · rfl
    · exact absurd (Option.some.inj ((hh x hx ha).symm.trans hc)) hne
  | launch q l r hr hv hsp hp =>
    intro x hx ha
    rcases mem_runsOf_putRun hr hp hx with ⟨rfl, -⟩ | ⟨hx, -⟩
    · have hns := ((Run.isActive_iff _).mp ha).1
      rw [(r.queued_precedes hp l.clock).speculative, hsp] at hns
      cases hns
    · exact hg x hx ha

/-- **Users keep their locks**, and are given none. -/
theorem Change.userLocked (h : Change o v s s') : s'.2.UserLocked v ↔ s.2.UserLocked v := by
  cases h with
  | join | leave | next | launch => exact .rfl
  | release q l w run hc he hw hl =>
    obtain rfl := Store.workspace?_id hw
    rw [Ledger.userLocked_iff hw, Ledger.userLocked_iff (Ledger.workspace?_release hw),
      Workspace.isUserLocked, Workspace.isUserLocked, hl]
    rfl
  | accept q l w r hc hr hp hw hl =>
    obtain rfl := Store.workspace?_id hw
    rw [Ledger.userLocked_iff hw, Ledger.userLocked_iff (Ledger.workspace?_accept hw r),
      Workspace.isUserLocked_eq_false hl]
    rfl

theorem Change.unfinishedOf (h : Change o v s s') (hs : s.2.Sound) (u : String) :
    s'.2.store.unfinishedOf u = s.2.store.unfinishedOf u := by
  have hq : ∀ {l : Ledger} {r : Run}, l.Sound → l.store.run? r.id = some r → r.status = .pending →
      (l.putRun (r.queued l.clock)).store.unfinishedOf u = l.store.unfinishedOf u := by
    intro l r hs hr hp
    refine Ledger.unfinishedOf_putRun hs hr (r.queued_precedes hp l.clock) (.inr ?_) u
    rw [Run.isDone, Run.isDone, hp]
    rfl
  cases h with
  | join | leave | next | release => rfl
  | accept q l w r hc hr hp hw hl =>
    rw [← hq hs hr hp, Store.unfinishedOf, Store.unfinishedOf, Ledger.runsOf_accept]
  | launch q l r hr hv hsp hp => exact hq hs hr hp

/-- **A run that has not ended keeps the lock.** -/
theorem Change.keepsLock (h : Change o v s s') {run : String} (he : ¬ s.2.Ended run)
    (hl : ∃ w, s.2.store.workspace? v = some w ∧ w.lock = some (.run run)) :
    ∃ w, s'.2.store.workspace? v = some w ∧ w.lock = some (.run run) := by
  cases h with
  | join | leave | next | launch => exact hl
  | release q l w x hc hx hw hlx =>
    obtain ⟨w', hw', hlw⟩ := hl
    obtain rfl := Option.some.inj (hw.symm.trans hw')
    obtain rfl := Holder.run.inj (Option.some.inj (hlx.symm.trans hlw))
    exact absurd hx he
  | accept q l w r hc hr hp hw hlr =>
    obtain ⟨w', hw', hlw⟩ := hl
    obtain rfl := Option.some.inj (hw.symm.trans hw')
    obtain rfl := Store.workspace?_id hw
    obtain rfl := Holder.run.inj (Option.some.inj ((hlr.resolve_left (by simp [hlw])).symm.trans hlw))
    exact ⟨_, Ledger.workspace?_accept hw r, rfl⟩

theorem Change.copy (h : Change o v s s') :
    s'.1.workspace = s.1.workspace ∨ s'.1.workspace.isUserLocked = false := by
  cases h with
  | join => exact .inl (join_workspace _ _)
  | leave | next | launch => exact .inl rfl
  | release | accept => exact .inr rfl

/-- **A change removes nothing and ends no run.** -/
theorem Change.spares (h : Change o v s s') : s.2.Spares s'.2 := by
  cases h with
  | join | leave | next => exact .refl _
  | release q l w run hc he hw hl => exact .putWorkspace _ _
  | accept q l w r hc hr hp hw hl => exact .accept hr hp w
  | launch q l r hr hv hsp hp => exact .putRun_queued hr hp l.clock

/-! ## Any number of changes -/

/-- **What changes keep**, as long as the ledger is sound and the queue fits it. -/
theorem Changes.sound (h : Changes o v s s') (hs : s.2.Sound) (hq : s.1.Fits o v s.2) :
    s'.2.Sound ∧ s.2.Grows s'.2 ∧ s'.1.Fits o v s'.2 := by
  induction h with
  | refl => exact ⟨hs, .refl _, hq⟩
  | tail _ hc ih =>
    obtain ⟨hs, hg, hq⟩ := ih
    obtain ⟨hs', hg', hq'⟩ := hc.sound hs hq
    exact ⟨hs', hg.trans hg', hq'⟩

/-- **Induction over changes**: what one change keeps, all of them keep. -/
theorem Changes.induction {P : Queue × Ledger → Prop} (h : Changes o v s s') (hs : s.2.Sound)
    (hq : s.1.Fits o v s.2) (h₀ : P s)
    (step : ∀ t t', t.2.Sound → t.1.Fits o v t.2 → Change o v t t' → P t → P t') : P s' := by
  induction h with
  | refl => exact h₀
  | tail hcs hc ih =>
    obtain ⟨hs', -, hq'⟩ := Changes.sound hcs hs hq
    exact step _ _ hs' hq' hc ih

theorem Changes.spares (h : Changes o v s s') (hs : s.2.Sound) (hq : s.1.Fits o v s.2) :
    s.2.Spares s'.2 :=
  h.induction (P := fun t => s.2.Spares t.2) hs hq (.refl _) fun _ _ _ _ hc hsp =>
    hsp.trans hc.spares

theorem Changes.apart (h : Changes o v s s') (hs : s.2.Sound) (hq : s.1.Fits o v s.2)
    (hu : u ≠ v) : s.2.Apart u s'.2 :=
  h.induction (P := fun t => s.2.Apart u t.2) hs hq (.refl u _) fun _ _ ht hf hc ha =>
    ha.trans (hc.apart ht hf hu)

theorem Changes.held (h : Changes o v s s') (hs : s.2.Sound) (hq : s.1.Fits o v s.2)
    (hh : Held v (some s.1) s.2) : Held v (some s'.1) s'.2 :=
  h.induction (P := fun t => Held v (some t.1) t.2) hs hq hh fun _ _ ht hf hc => hc.held ht hf

theorem Changes.lockedBut {except : String → Prop} (h : Changes o v s s')
    (hh : LockedBut except v (some s.1) s.2) : LockedBut except v (some s'.1) s'.2 := by
  induction h with
  | refl => exact hh
  | tail _ hc ih => exact hc.lockedBut ih

theorem Changes.locked (h : Changes o v s s') (hh : Locked v (some s.1) s.2) :
    Locked v (some s'.1) s'.2 :=
  lockedBut_false.mp (Changes.lockedBut h (lockedBut_false.mpr hh))

theorem Changes.keepsLock (h : Changes o v s s') {run : String} (he : ¬ s.2.Ended run)
    (hl : ∃ w, s.2.store.workspace? v = some w ∧ w.lock = some (.run run)) :
    ∃ w, s'.2.store.workspace? v = some w ∧ w.lock = some (.run run) := by
  induction h using Relation.ReflTransGen.head_induction_on with
  | refl => exact hl
  | head hc _ ih => exact ih (fun h => he ((hc.spares.ended run).mp h)) (hc.keepsLock he hl)

theorem Changes.unfinishedOf (h : Changes o v s s') (hs : s.2.Sound) (hq : s.1.Fits o v s.2)
    (u : String) : s'.2.store.unfinishedOf u = s.2.store.unfinishedOf u :=
  h.induction (P := fun t => t.2.store.unfinishedOf u = s.2.store.unfinishedOf u) hs hq rfl
    fun _ _ ht _ hc hu => (hc.unfinishedOf ht u).trans hu

theorem Changes.granted (h : Changes o v s s') (hs : s.2.Sound) (hq : s.1.Fits o v s.2)
    (hh : Held v (some s.1) s.2) (hg : Granted v s.2) : Granted v s'.2 := by
  refine (h.induction (P := fun t => Held v (some t.1) t.2 ∧ Granted v t.2) hs hq ⟨hh, hg⟩ ?_).2
  exact fun _ _ ht hf hc ⟨hh, hg⟩ => ⟨hc.held ht hf hh, hc.granted hh hg⟩

theorem Changes.userLocked (h : Changes o v s s') : s'.2.UserLocked v ↔ s.2.UserLocked v := by
  induction h with
  | refl => exact .rfl
  | tail _ hc ih => exact hc.userLocked.trans ih

theorem Changes.copy (h : Changes o v s s') :
    s'.1.workspace = s.1.workspace ∨ s'.1.workspace.isUserLocked = false := by
  induction h with
  | refl => exact .inl rfl
  | tail _ hc ih =>
    rcases hc.copy with he | hu
    · rw [he]
      exact ih
    · exact .inr hu

theorem Changes.shown (h : Changes o v s s') (hsh : Shown v s) : Shown v s' := by
  intro hu
  rw [Changes.userLocked h]
  rcases Changes.copy h with he | hn
  · exact hsh (he ▸ hu)
  · cases hn.symm.trans hu

end Provision.Queue
